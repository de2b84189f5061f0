import Curtail.Text.Hex
import Curtail.Text.Blank

/-!
The layout of a journal: a header of sixteen bytes, then frames, each with a header of eight bytes
and a payload. Numbers have their least significant byte first.
-/

namespace Curtail.Journal

inductive IoFailure
  | missing
  | endsEarly
  | device (reason : String)
  deriving DecidableEq, Repr

def IoFailure.message : IoFailure → String
  | .missing => "No such file or directory (os error 2)"
  | .endsEarly => "failed to fill whole buffer"
  | .device reason => reason

inductive HeaderFault
  | short (size : Nat)
  | magic (bytes : Bytes)
  | version (number : Nat)
  | reserved (position : Nat)
  deriving DecidableEq, Repr

inductive FrameFault
  | short (size : Nat)
  | reserved
  | tooLong (length : Nat)
  deriving DecidableEq, Repr

inductive JournalError
  | io (failure : IoFailure)
  | header (fault : HeaderFault)
  | frame (offset : Nat) (fault : FrameFault)
  | payloadTooLarge (size : Nat)
  | notText
  | notJson
  | fileNotEmpty
  | truncatedFrame (offset : Nat)
  | invalidTruncate (target least most : Nat)
  deriving DecidableEq, Repr

def magic : Bytes := [0x46, 0x53, 0x4A, 0x31]

def version : Nat := 1

def headerSize : Nat := 16

def frameHeaderSize : Nat := 8

def maxPayload : Nat := 16 * 1024 * 1024

/-- Readers of commits pass over frames of all other kinds. -/
def commitKind : UInt8 := 1

def bytesText (bytes : Bytes) : String :=
  "[" ++ ", ".intercalate (bytes.map fun b => toString b.toNat) ++ "]"

def hexWord (n : Nat) : String := "0x" ++ String.ofList (Text.hexFour n)

def HeaderFault.message : HeaderFault → String
  | .short size => "header too short: " ++ toString size ++ " bytes"
  | .magic bytes => "invalid magic: " ++ bytesText bytes
  | .version number =>
    "unsupported version: " ++ hexWord number ++ ", expected " ++ hexWord Journal.version
  | .reserved position => "non-zero reserved byte at " ++ toString position

def FrameFault.message : FrameFault → String
  | .short size => "frame header too short: " ++ toString size ++ " bytes"
  | .reserved => "non-zero reserved bytes"
  | .tooLong length =>
    "payload size " ++ toString length ++ " exceeds maximum " ++ toString maxPayload

def JournalError.message : JournalError → String
  | .io failure => "I/O error: " ++ failure.message
  | .header fault => "invalid journal header: " ++ fault.message
  | .frame offset fault => "invalid frame at offset " ++ toString offset ++ ": " ++ fault.message
  | .payloadTooLarge size =>
    "payload size " ++ toString size ++ " exceeds maximum " ++ toString maxPayload
  | .notText => "invalid UTF-8 in commit payload: malformed bytes"
  | .notJson => "JSON error: not a record"
  | .fileNotEmpty => "file is not empty; cannot initialize header"
  | .truncatedFrame offset => "truncated frame at offset " ++ toString offset
  | .invalidTruncate target least most =>
    "cannot truncate journal to " ++ toString target ++ ": valid range is " ++ toString least ++
      "..=" ++ toString most

def header : Bytes :=
  magic ++ Bytes.littleEndian 2 version ++ List.replicate 10 0

def readHeader (bytes : Bytes) : Except JournalError Nat :=
  if bytes.length < headerSize then .error (.header (.short bytes.length))
  else if bytes.take 4 ≠ magic then .error (.header (.magic (bytes.take 4)))
  else
    let found := Bytes.number ((bytes.drop 4).take 2)
    if found ≠ version then .error (.header (.version found))
    else match ((bytes.take headerSize).drop 6).findIdx? (· ≠ 0) with
      | some i => .error (.header (.reserved (i + 6)))
      | none => .ok found

structure FrameHeader where
  kind : UInt8
  length : Nat
  length_le : length ≤ maxPayload
  deriving DecidableEq

namespace FrameHeader

def of? (kind : UInt8) (length : Nat) : Except JournalError FrameHeader :=
  if h : length ≤ maxPayload then .ok ⟨kind, length, h⟩ else .error (.payloadTooLarge length)

def totalLength (h : FrameHeader) : Nat := frameHeaderSize + h.length

def bytes (h : FrameHeader) : Bytes :=
  h.kind :: 0 :: 0 :: 0 :: Bytes.littleEndian 4 h.length

def read (offset : Nat) : Bytes → Except JournalError FrameHeader
  | kind :: a :: b :: c :: l0 :: l1 :: l2 :: l3 :: _ =>
    if a ≠ 0 ∨ b ≠ 0 ∨ c ≠ 0 then .error (.frame offset .reserved)
    else
      let length := Bytes.number [l0, l1, l2, l3]
      if h : length ≤ maxPayload then .ok ⟨kind, length, h⟩
      else .error (.frame offset (.tooLong length))
  | bytes => .error (.frame offset (.short bytes.length))

end FrameHeader

structure Frame where
  kind : UInt8
  payload : Bytes
  deriving DecidableEq, Repr

def Frame.encode (f : Frame) : Except JournalError Bytes := do
  let header ← FrameHeader.of? f.kind f.payload.length
  return header.bytes ++ f.payload

end Curtail.Journal
