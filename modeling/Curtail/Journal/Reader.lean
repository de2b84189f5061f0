import Curtail.Journal.Frame
import Curtail.Json.Value

/-!
Reading a journal from its header to its end. A frame that the file ends in the middle of is an
error to a strict reader, and the torn tail of the file to a permissive one.
-/

namespace Curtail.Journal

open Json

inductive ReadMode
  | strict
  | permissive
  deriving DecidableEq, Repr

inductive Next
  | finish
  | torn
  | frame (f : Frame) (rest : Bytes)

def onShortRead (mode : ReadMode) (offset : Nat) : Except JournalError Next :=
  match mode with
  | .strict => .error (.truncatedFrame offset)
  | .permissive => .ok .torn

/-- The frame is whole if there is a byte in its last place; nothing after that is looked at. -/
def readFrame (mode : ReadMode) (offset : Nat) (rest : Bytes) : Except JournalError Next :=
  if rest = [] then .ok .finish
  else if (rest.take frameHeaderSize).length < frameHeaderSize then onShortRead mode offset
  else match FrameHeader.read offset rest with
    | .error e => .error e
    | .ok header =>
      if rest.drop (header.totalLength - 1) = [] then onShortRead mode offset
      else .ok (.frame ⟨header.kind, (rest.drop frameHeaderSize).take header.length⟩
        (rest.drop header.totalLength))

structure Transcript (α : Type) where
  items : List α
  position : Nat
  torn : Option Nat
  failure : Option JournalError

namespace Transcript

variable {α : Type}

def ended (position : Nat) : Transcript α := ⟨[], position, none, none⟩

def tornAt (position : Nat) : Transcript α := ⟨[], position, some position, none⟩

def failed (position : Nat) (e : JournalError) : Transcript α := ⟨[], position, none, some e⟩

def cons (item : Option α) (t : Transcript α) : Transcript α :=
  match item with
  | some x => { t with items := x :: t.items }
  | none => t

end Transcript

theorem readFrame_shrinks {mode : ReadMode} {offset : Nat} {bytes rest : Bytes} {f : Frame}
    (h : readFrame mode offset bytes = .ok (.frame f rest)) : rest.length < bytes.length := by
  unfold readFrame at h
  split at h
  · simp at h
  · rename_i nonempty
    split at h
    · cases mode <;> simp [onShortRead] at h
    · split at h
      · simp at h
      · split at h
        · cases mode <;> simp [onShortRead] at h
        · simp only [Except.ok.injEq, Next.frame.injEq] at h
          rw [← h.2, List.length_drop]
          have := List.length_pos_iff.mpr nonempty
          simp only [FrameHeader.totalLength, frameHeaderSize]
          omega

/-- A frame that `select` refuses has been passed when its error is found. -/
def scan {α : Type} (mode : ReadMode) (select : Frame → Except JournalError (Option α))
    (offset : Nat) (bytes : Bytes) : Transcript α :=
  match _h : readFrame mode offset bytes with
  | .error e => .failed offset e
  | .ok .finish => .ended offset
  | .ok .torn => .tornAt offset
  | .ok (.frame f rest) =>
    let next := offset + frameHeaderSize + f.payload.length
    match select f with
    | .error e => .failed next e
    | .ok item => .cons item (scan mode select next rest)
termination_by bytes.length
decreasing_by exact readFrame_shrinks (by assumption)

def readJournal {α : Type} (mode : ReadMode) (select : Frame → Except JournalError (Option α)) :
    Option Bytes → Except JournalError (Transcript α)
  | none => .error (.io .missing)
  | some bytes =>
    if bytes.length < headerSize then .error (.io .endsEarly)
    else match readHeader bytes with
      | .error e => .error e
      | .ok _ => .ok (scan mode select headerSize (bytes.drop headerSize))

def everyFrame (f : Frame) : Except JournalError (Option Frame) := .ok (some f)

def commits {α : Type} (decode : Tree → Option α) (f : Frame) : Except JournalError (Option α) :=
  if f.kind ≠ commitKind then .ok none
  else match f.payload.toText? with
    | none => .error .notText
    | some text =>
      match (Tree.ofText? text).bind decode with
      | some x => .ok (some x)
      | none => .error .notJson

def values : Frame → Except JournalError (Option Value) :=
  commits (·.value? Tree.depthLimit)

end Curtail.Journal
