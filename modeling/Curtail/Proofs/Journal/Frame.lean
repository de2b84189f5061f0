import Curtail.Journal.Reader
import Curtail.Journal.Writer
import Curtail.Proofs.Text.Hex

namespace Curtail.Journal

theorem length_header : header.length = headerSize := rfl

theorem headerSize_le (rest : Bytes) : headerSize ≤ (header ++ rest).length := by
  rw [List.length_append, length_header]
  exact Nat.le_add_right _ _

theorem readHeader_header (rest : Bytes) : readHeader (header ++ rest) = .ok version := by
  have long := Nat.not_lt.mpr (headerSize_le rest)
  have front : (header ++ rest).take headerSize = header := List.take_left' rfl
  have marked : (header ++ rest).take 4 = magic := rfl
  have found : ((header ++ rest).drop 4).take 2 = [1, 0] := rfl
  unfold readHeader
  rw [if_neg long, if_neg (not_not_intro marked)]
  simp only [found, front]
  rfl

namespace FrameHeader

variable {offset : Nat} {kind a b c : UInt8} {digits body : Bytes}

theorem read_reserved (four : digits.length = 4) (marked : a ≠ 0 ∨ b ≠ 0 ∨ c ≠ 0) :
    read offset (kind :: a :: b :: c :: (digits ++ body)) = .error (.frame offset .reserved) := by
  match digits, four with
  | [_, _, _, _], _ => exact if_pos marked

theorem read_of_le (four : digits.length = 4) (small : Bytes.number digits ≤ maxPayload) :
    read offset (kind :: 0 :: 0 :: 0 :: (digits ++ body)) =
      .ok ⟨kind, Bytes.number digits, small⟩ := by
  match digits, four with
  | [_, _, _, _], _ => exact dif_pos small

theorem read_of_lt (four : digits.length = 4) (large : maxPayload < Bytes.number digits) :
    read offset (kind :: 0 :: 0 :: 0 :: (digits ++ body)) =
      .error (.frame offset (.tooLong (Bytes.number digits))) := by
  match digits, four with
  | [_, _, _, _], _ => exact dif_neg (Nat.not_le.mpr large)

theorem length_of_read {bytes : Bytes} {h : FrameHeader} (read : read offset bytes = .ok h) :
    frameHeaderSize ≤ bytes.length := by
  unfold FrameHeader.read at read
  split at read
  · exact Nat.le_add_left ..
  · cases read

end FrameHeader

section Header

variable {mode : ReadMode} {offset : Nat} {kind a b c : UInt8} {digits body : Bytes}

theorem readFrame_of_header (four : digits.length = 4) :
    readFrame mode offset (kind :: a :: b :: c :: (digits ++ body)) =
      match FrameHeader.read offset (kind :: a :: b :: c :: (digits ++ body)) with
      | .error e => .error e
      | .ok header =>
        if body.length < header.length then onShortRead mode offset
        else .ok (.frame ⟨header.kind, body.take header.length⟩ (body.drop header.length)) := by
  match digits, four with
  | [d₀, d₁, d₂, d₃], _ =>
      unfold readFrame
      rw [if_neg (by exact nofun), if_neg (by simp [frameHeaderSize])]
      cases FrameHeader.read offset (kind :: a :: b :: c :: ([d₀, d₁, d₂, d₃] ++ body)) with
      | error e => rfl
      | ok header =>
          have total : header.totalLength = header.length + 8 := Nat.add_comm ..
          have ended : (kind :: a :: b :: c :: ([d₀, d₁, d₂, d₃] ++ body)).drop
              (header.totalLength - 1) = [] ↔ body.length < header.length := by
            rw [List.drop_eq_nil_iff, total]
            simp only [List.length_cons, List.cons_append, List.nil_append]
            omega
          simp only [ended]
          rw [total]
          rfl

theorem readFrame_reserved (four : digits.length = 4) (marked : a ≠ 0 ∨ b ≠ 0 ∨ c ≠ 0) :
    readFrame mode offset (kind :: a :: b :: c :: (digits ++ body)) =
      .error (.frame offset .reserved) := by
  rw [readFrame_of_header four, FrameHeader.read_reserved four marked]

theorem readFrame_tooLong (four : digits.length = 4) (large : maxPayload < Bytes.number digits) :
    readFrame mode offset (kind :: 0 :: 0 :: 0 :: (digits ++ body)) =
      .error (.frame offset (.tooLong (Bytes.number digits))) := by
  rw [readFrame_of_header four, FrameHeader.read_of_lt four large]

theorem readFrame_whole (four : digits.length = 4) (small : Bytes.number digits ≤ maxPayload)
    (there : Bytes.number digits ≤ body.length) :
    readFrame mode offset (kind :: 0 :: 0 :: 0 :: (digits ++ body)) =
      .ok (.frame ⟨kind, body.take (Bytes.number digits)⟩ (body.drop (Bytes.number digits))) := by
  rw [readFrame_of_header four, FrameHeader.read_of_le four small]
  exact if_neg (Nat.not_lt.mpr there)

theorem readFrame_overrun (four : digits.length = 4) (small : Bytes.number digits ≤ maxPayload)
    (beyond : body.length < Bytes.number digits) :
    readFrame mode offset (kind :: 0 :: 0 :: 0 :: (digits ++ body)) = onShortRead mode offset := by
  rw [readFrame_of_header four, FrameHeader.read_of_le four small]
  exact if_pos beyond

end Header

theorem readFrame_of_overrun {mode : ReadMode} {offset : Nat} {bytes : Bytes} {h : FrameHeader}
    (read : FrameHeader.read offset bytes = .ok h) (beyond : bytes.length < h.totalLength) :
    readFrame mode offset bytes = onShortRead mode offset := by
  have long := FrameHeader.length_of_read read
  have front : ¬(bytes.take frameHeaderSize).length < frameHeaderSize := by
    rw [List.length_take]
    omega
  unfold readFrame
  rw [if_neg (List.length_pos_iff.mp (Nat.lt_of_lt_of_le (by decide) long)), if_neg front, read]
  exact if_pos (List.drop_eq_nil_iff.mpr (by omega))

namespace Frame

abbrev Fits (f : Frame) : Prop := f.payload.length ≤ maxPayload

def lengthBytes (f : Frame) : Bytes := Bytes.littleEndian 4 f.payload.length

def bytes (f : Frame) : Bytes := f.kind :: 0 :: 0 :: 0 :: f.lengthBytes ++ f.payload

theorem encode_of_fits {f : Frame} (fits : f.Fits) : f.encode = .ok f.bytes := by
  simp only [encode, FrameHeader.of?, fits]
  rfl

theorem encode_of_not_fits {f : Frame} (large : ¬f.Fits) :
    f.encode = .error (.payloadTooLarge f.payload.length) := by
  simp only [encode, FrameHeader.of?, large]
  rfl

theorem length_lengthBytes (f : Frame) : f.lengthBytes.length = 4 := Bytes.length_littleEndian ..

theorem number_lengthBytes {f : Frame} (fits : f.Fits) :
    Bytes.number f.lengthBytes = f.payload.length :=
  Bytes.number_littleEndian (Nat.lt_of_le_of_lt fits (by decide))

theorem bytes_append (f : Frame) (rest : Bytes) :
    f.bytes ++ rest = f.kind :: 0 :: 0 :: 0 :: (f.lengthBytes ++ (f.payload ++ rest)) := by
  simp only [bytes, List.cons_append, List.append_assoc]

theorem length_bytes (f : Frame) : f.bytes.length = frameHeaderSize + f.payload.length := by
  simp only [bytes, List.length_append, List.length_cons, length_lengthBytes, frameHeaderSize]

theorem length_header_append_bytes (f : Frame) :
    (Journal.header ++ f.bytes).length = headerSize + frameHeaderSize + f.payload.length := by
  rw [List.length_append, length_header, f.length_bytes, Nat.add_assoc]

theorem bytes_ne_nil (f : Frame) : f.bytes ≠ [] := nofun

/-- The bytes of a frame in whose header one byte has been changed. -/
inductive Damaged (f : Frame) : Nat → Bytes → Prop
  | kind {b : UInt8} : b ≠ f.kind → Damaged f 0 (bytes ⟨b, f.payload⟩)
  | reserved {position : Nat} {a b c : UInt8} : a ≠ 0 ∨ b ≠ 0 ∨ c ≠ 0 →
      Damaged f position (f.kind :: a :: b :: c :: (f.lengthBytes ++ f.payload))
  | length {position : Nat} {digits : Bytes} : digits.length = 4 → digits ≠ f.lengthBytes →
      Damaged f position (f.kind :: 0 :: 0 :: 0 :: (digits ++ f.payload))

theorem damaged_set (f : Frame) {position : Nat} (within : position < frameHeaderSize) {b : UInt8}
    (different : f.bytes[position]? ≠ some b) : f.Damaged position (f.bytes.set position b) := by
  match position with
  | 0 => exact .kind fun same => different (congrArg some same.symm)
  | 1 => exact .reserved (.inl fun zero => different (congrArg some zero.symm))
  | 2 => exact .reserved (.inr (.inl fun zero => different (congrArg some zero.symm)))
  | 3 => exact .reserved (.inr (.inr fun zero => different (congrArg some zero.symm)))
  | place + 4 =>
      have four := f.length_lengthBytes
      have inside : place < f.lengthBytes.length := by
        unfold frameHeaderSize at within
        omega
      have changed : f.bytes.set (place + 4) b =
          f.kind :: 0 :: 0 :: 0 :: (f.lengthBytes.set place b ++ f.payload) := by
        rw [← List.set_append_left _ _ inside]
        rfl
      rw [changed]
      refine .length ((List.length_set ..).trans four) ?_
      intro same
      apply different
      change (f.lengthBytes ++ f.payload)[place]? = some b
      rw [List.getElem?_append_left inside, ← same, List.getElem?_set_self inside]

end Frame

theorem readFrame_bytes {f : Frame} (fits : f.Fits) (mode : ReadMode) (offset : Nat) (rest : Bytes) :
    readFrame mode offset (f.bytes ++ rest) = .ok (.frame f rest) := by
  have number := Frame.number_lengthBytes fits
  have small : Bytes.number f.lengthBytes ≤ maxPayload := number ▸ fits
  have there : Bytes.number f.lengthBytes ≤ (f.payload ++ rest).length := by
    rw [number, List.length_append]
    exact Nat.le_add_right _ _
  rw [f.bytes_append, readFrame_whole f.length_lengthBytes small there, number, List.take_left,
    List.drop_left]

theorem readFrame_cut {f : Frame} (fits : f.Fits) (offset : Nat) {count : Nat} (begun : 0 < count)
    (cut : count < f.bytes.length) :
    readFrame .permissive offset (f.bytes.take count) = .ok .torn := by
  have length : (f.bytes.take count).length = count := by
    rw [List.length_take]
    omega
  -- The cut is in the frame's header, or the header is whole and names more bytes than there are.
  by_cases short : count < frameHeaderSize
  · have nonempty : f.bytes.take count ≠ [] := by
      rw [← List.length_pos_iff, length]
      exact begun
    have headless : ((f.bytes.take count).take frameHeaderSize).length < frameHeaderSize := by
      rw [List.length_take, length]
      omega
    unfold readFrame
    rw [if_neg nonempty, if_pos headless]
    rfl
  · obtain ⟨kept, rfl⟩ := Nat.exists_eq_add_of_le (Nat.not_lt.mp short)
    rw [f.length_bytes] at cut
    have number := Frame.number_lengthBytes fits
    have small : Bytes.number f.lengthBytes ≤ maxPayload := number ▸ fits
    have beyond : (f.payload.take kept).length < Bytes.number f.lengthBytes := by
      rw [number, List.length_take]
      omega
    have front : f.bytes.take (frameHeaderSize + kept) =
        f.kind :: 0 :: 0 :: 0 :: (f.lengthBytes ++ f.payload.take kept) := by
      have eight : (f.kind :: 0 :: 0 :: 0 :: f.lengthBytes).length = frameHeaderSize := rfl
      rw [Frame.bytes, ← eight, List.take_length_add_append]
      rfl
    rw [front]
    exact readFrame_overrun f.length_lengthBytes small beyond

section Scan

variable {α : Type} {mode : ReadMode} {select : Frame → Except JournalError (Option α)} {offset : Nat}
  {bytes : Bytes}

theorem scan_nil : scan mode select offset [] = .ended offset := by
  rw [scan]
  simp [readFrame]

theorem scan_of_error {e : JournalError} (read : readFrame mode offset bytes = .error e) :
    scan mode select offset bytes = .failed offset e := by
  rw [scan]
  split <;> simp_all

theorem scan_of_torn (read : readFrame mode offset bytes = .ok .torn) :
    scan mode select offset bytes = .tornAt offset := by
  rw [scan]
  split <;> simp_all

theorem scan_of_frame {f : Frame} {rest : Bytes}
    (read : readFrame mode offset bytes = .ok (.frame f rest)) :
    scan mode select offset bytes = match select f with
      | .error e => .failed (offset + f.bytes.length) e
      | .ok item => .cons item (scan mode select (offset + f.bytes.length) rest) := by
  have next : offset + f.bytes.length = offset + frameHeaderSize + f.payload.length := by
    rw [f.length_bytes, Nat.add_assoc]
  rw [scan, next]
  split
  case h_4 h =>
    rw [read] at h
    obtain ⟨rfl, rfl⟩ := Next.frame.inj (Except.ok.inj h)
    rfl
  all_goals simp_all

theorem scan_bytes {f : Frame} (fits : f.Fits) {item : Option α} (selected : select f = .ok item)
    (rest : Bytes) : scan mode select offset (f.bytes ++ rest) =
      .cons item (scan mode select (offset + f.bytes.length) rest) := by
  rw [scan_of_frame (readFrame_bytes fits mode offset rest), selected]

theorem scan_cut {f : Frame} (fits : f.Fits) {count : Nat} (begun : 0 < count)
    (cut : count < f.bytes.length) :
    scan .permissive select offset (f.bytes.take count) = .tornAt offset :=
  scan_of_torn (readFrame_cut fits offset begun cut)

end Scan

theorem readJournal_header {α : Type} (mode : ReadMode)
    (select : Frame → Except JournalError (Option α)) (rest : Bytes) :
    readJournal mode select (some (header ++ rest)) = .ok (scan mode select headerSize rest) := by
  have long := Nat.not_lt.mpr (headerSize_le rest)
  have behind : (header ++ rest).drop headerSize = rest := List.drop_left' rfl
  simp only [readJournal]
  rw [if_neg long, readHeader_header, behind]

theorem writeAt_end (file data : Bytes) : writeAt file file.length data = file ++ data := by
  simp [writeAt]

namespace Writer

theorem attempt_header (rest : Bytes) : attempt .standard (some (header ++ rest)) =
    .ok (⟨(header ++ rest).length⟩, header ++ rest) := by
  have long := Nat.not_lt.mpr (headerSize_le rest)
  have sound := readHeader_header rest
  rw [attempt]
  · rw [if_neg long, sound]
    rfl
  · exact nofun

theorem start_header (rest : Bytes) : start .standard (some (header ++ rest)) =
    .ok (⟨(header ++ rest).length⟩, header ++ rest) := by
  rw [start, attempt_header]
  rfl

theorem truncate_error {w after : Writer} {file left : Bytes} {target : Nat} {e : JournalError}
    (failed : w.truncate file target = (.error e, after, left)) : left = file := by
  unfold truncate at failed
  split at failed <;> cases failed
  rfl

theorem attempt_error {options : WriteOptions} {given left : Option Bytes} {e : JournalError}
    (failed : attempt options given = .error (e, left)) : left = given := by
  match given with
  | none =>
      simp only [attempt] at failed
      split at failed <;> cases failed
      rfl
  | some [] => cases failed
  | some (first :: others) =>
      simp only [attempt] at failed
      split at failed
      · cases failed
        rfl
      split at failed
      · cases failed
        rfl
      split at failed
      · cases failed
      split at failed
      · rename_i cut
        cases failed
        exact congrArg some (truncate_error cut)
      · cases failed

theorem attempt_append {options : WriteOptions} {first : UInt8} {others file : Bytes} {w : Writer}
    (appends : options.append = true) (started : attempt options (some (first :: others)) = .ok (w, file)) :
    file = first :: others := by
  simp only [attempt, if_pos appends] at started
  split at started
  · cases started
  split at started <;> cases started
  rfl

theorem append_of_fits {f : Frame} (fits : f.Fits) (file : Bytes) :
    append ⟨file.length⟩ file .done f =
      (.ok file.length, ⟨(file ++ f.bytes).length⟩, file ++ f.bytes) := by
  simp only [append, Frame.encode_of_fits fits, writeAt_end, List.length_append]

theorem append_error {file : Bytes} (headed : headerSize ≤ file.length) {fate : WriteFate} {f : Frame}
    {e : JournalError} {w : Writer} {left : Bytes}
    (failed : append ⟨file.length⟩ file fate f = (.error e, w, left)) :
    w = ⟨file.length⟩ ∧ left = file := by
  by_cases fits : f.Fits
  · cases fate with
    | done =>
        rw [append_of_fits fits] at failed
        cases failed
    | stopped written reason =>
        -- What has been written already is cut off again.
        simp only [append, Frame.encode_of_fits fits, writeAt_end, truncate] at failed
        rw [if_neg (by rw [List.length_append]; omega), List.take_left] at failed
        cases failed
        exact ⟨rfl, rfl⟩
  · simp only [append, Frame.encode_of_not_fits fits] at failed
    cases failed
    exact ⟨rfl, rfl⟩

theorem append_ok {file : Bytes} {fate : WriteFate} {f : Frame}
    {offset : Nat} {w : Writer} {longer : Bytes}
    (accepted : append ⟨file.length⟩ file fate f = (.ok offset, w, longer)) :
    f.Fits ∧ w = ⟨longer.length⟩ ∧ longer = file ++ f.bytes := by
  by_cases fits : f.Fits
  · cases fate with
    | done =>
        rw [append_of_fits fits] at accepted
        cases accepted
        exact ⟨fits, rfl, rfl⟩
    | stopped written reason =>
        simp only [append, Frame.encode_of_fits fits] at accepted
        cases accepted
  · simp only [append, Frame.encode_of_not_fits fits] at accepted
    cases accepted

end Writer

end Curtail.Journal
