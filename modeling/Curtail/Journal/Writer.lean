import Curtail.Journal.Frame

namespace Curtail.Journal

structure WriteOptions where
  sync : Bool
  create : Bool
  append : Bool
  deriving DecidableEq, Repr

def WriteOptions.standard : WriteOptions := ⟨false, true, true⟩

inductive WriteFate
  | done
  | stopped (written : Nat) (reason : String)
  deriving DecidableEq, Repr

/-- A gap in front of `offset` is filled with zeros. -/
def writeAt (file : Bytes) (offset : Nat) (data : Bytes) : Bytes :=
  if file.length ≤ offset then file ++ (List.replicate (offset - file.length) 0 ++ data)
  else file.take offset ++ (data ++ file.drop (offset + data.length))

structure Writer where
  length : Nat
  deriving DecidableEq, Repr

namespace Writer

def isEmpty (w : Writer) : Bool := w.length ≤ headerSize

def truncate (w : Writer) (file : Bytes) (target : Nat) : Except JournalError Unit × Writer × Bytes :=
  if target < headerSize ∨ file.length < target then
    (.error (.invalidTruncate target headerSize file.length), w, file)
  else (.ok (), ⟨target⟩, file.take target)

/-- Opens the file. An error, too, comes with the file as it is left. -/
def attempt (options : WriteOptions) : Option Bytes → Except (JournalError × Option Bytes) (Writer × Bytes)
  | none => if options.create then .ok (⟨headerSize⟩, header) else .error (.io .missing, none)
  | some [] => .ok (⟨headerSize⟩, header)
  | some file =>
    if file.length < headerSize then .error (.fileNotEmpty, some file)
    else match readHeader file with
      | .error e => .error (e, some file)
      | .ok _ =>
        let writer : Writer := ⟨file.length⟩
        if options.append then .ok (writer, file)
        else match writer.truncate file headerSize with
          | (.error e, _, file) => .error (e, some file)
          | (.ok (), writer, file) => .ok (writer, file)

def start (options : WriteOptions) (file : Option Bytes) : Except JournalError (Writer × Bytes) :=
  (attempt options file).mapError Prod.fst

/-- A write that stops early is undone as far as possible. -/
def append (w : Writer) (file : Bytes) (fate : WriteFate) (f : Frame) :
    Except JournalError Nat × Writer × Bytes :=
  match f.encode with
  | .error e => (.error e, w, file)
  | .ok data =>
    match fate with
    | .done => (.ok w.length, ⟨w.length + data.length⟩, writeAt file w.length data)
    | .stopped written reason =>
      let damaged := writeAt file w.length (data.take written)
      let (_, w, file) := w.truncate damaged w.length
      (.error (.io (.device reason)), w, file)

end Writer

end Curtail.Journal
