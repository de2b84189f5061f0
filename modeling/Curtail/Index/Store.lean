import Curtail.Index.Basic
import Curtail.Journal.Reader
import Curtail.Journal.Writer

namespace Curtail

open Journal Json

inductive Query
  | event (id : EventId)
  | events
  | proof (key : SiteKey)
  | proofs (id : EventId)
  | settlement (key : SiteKey)
  | settlements (id : EventId)
  | audit (key : SiteKey)
  | pending (scope : Scope)
  | orphans
  deriving DecidableEq, Repr

namespace Query

def Answer : Query → Type
  | .event _ => Option Event
  | .events => List Event
  | .proof _ => Option Proof
  | .proofs _ => List Proof
  | .settlement _ => Option Settlement
  | .settlements _ => List Settlement
  | .audit _ => Option AuditRequest
  | .pending _ => List PendingTx
  | .orphans => List Orphan

end Query

def Index.answer (index : Index) : (q : Query) → q.Answer
  | .event id => index.events.get? id
  | .events => index.events.values
  | .proof key => index.proofs.get? key
  | .proofs id => Index.rowsOf index.proofs id
  | .settlement key => index.settlements.get? key
  | .settlements id => Index.rowsOf index.settlements id
  | .audit key => index.audits.get? key
  | .pending scope => index.pending scope
  | .orphans => index.orphans

inductive ReplayFault
  | outOfOrder (expected : UInt64)
  | rejected (cause : Rejection)
  deriving DecidableEq, Repr

def ReplayFault.message : ReplayFault → String
  | .outOfOrder expected => "expected sequence " ++ toString expected.toNat
  | .rejected cause => cause.message

inductive StoreError
  | rejected (cause : Rejection)
  | io (failure : IoFailure)
  | journal (error : JournalError)
  | replay (seq : UInt64) (fault : ReplayFault)
  | poisoned
  deriving DecidableEq, Repr

def StoreError.message : StoreError → String
  | .rejected cause => cause.message
  | .io failure => "I/O error: " ++ failure.message
  | .journal error => "journal error: " ++ error.message
  | .replay seq fault =>
    "journal replay failed at commit " ++ toString seq.toNat ++ ": " ++ fault.message
  | .poisoned => "store lock poisoned"

def Index.commit (index : Index) (change : Change) : Except StoreError Unit × Index :=
  match index.check change with
  | .error cause => (.error (.rejected cause), index)
  | .ok () => (.ok (), index.apply change)

/-- An index whose every commit is a frame of a journal. -/
structure JournaledIndex where
  index : Index
  writer : Writer
  seq : UInt64

namespace JournaledIndex

def envelopeBytes : Nat := 64

def maxChangeBytes : Nat := maxPayload - envelopeBytes

def replay (index : Index) (seq : UInt64) : List Commit → Except StoreError (Index × UInt64)
  | [] => .ok (index, seq)
  | commit :: commits =>
    if commit.seq ≠ seq + 1 then .error (.replay commit.seq (.outOfOrder (seq + 1)))
    else match index.check commit.change with
      | .error cause => .error (.replay commit.seq (.rejected cause))
      | .ok () => replay (index.apply commit.change) commit.seq commits

def recover (file : Bytes) : Except StoreError (Index × UInt64 × Option Nat) :=
  match readJournal .permissive (commits decode) (some file) with
  | .error e => .error (.journal e)
  | .ok transcript =>
    match replay .empty 0 transcript.items with
    | .error e => .error e
    | .ok (index, seq) =>
      match transcript.failure with
      | some e => .error (.journal e)
      | none => .ok (index, seq, transcript.torn)

def recover? (options : WriteOptions) : Option Bytes → Except StoreError (Index × UInt64 × Option Nat)
  | none => .ok (.empty, 0, none)
  | some file =>
    if options.append && file ≠ [] then recover file else .ok (.empty, 0, none)

/-- Opens a journal. An error, too, comes with the file as it is left. -/
def start (options : WriteOptions) (file : Option Bytes) :
    Except (StoreError × Option Bytes) (JournaledIndex × Bytes) :=
  match recover? options file with
  | .error e => .error (e, file)
  | .ok (index, seq, torn) =>
    match Writer.attempt options file with
    | .error (e, file) => .error (.journal e, file)
    | .ok (writer, file) =>
      match torn with
      | none => .ok (⟨index, writer, seq⟩, file)
      | some offset =>
        match writer.truncate file offset with
        | (.error e, _, file) => .error (.journal e, some file)
        | (.ok (), writer, file) => .ok (⟨index, writer, seq⟩, file)

def frameOf (commit : Commit) : Frame :=
  ⟨commitKind, Bytes.ofText (encode commit).compactText⟩

def commit (store : JournaledIndex) (file : Bytes) (fate : WriteFate) (change : Change) :
    Except StoreError Unit × JournaledIndex × Bytes :=
  match store.index.check change with
  | .error cause => (.error (.rejected cause), store, file)
  | .ok () =>
    let seq := store.seq + 1
    match store.writer.append file fate (frameOf ⟨seq, change⟩) with
    | (.error e, writer, file) => (.error (.journal e), { store with writer }, file)
    | (.ok _, writer, file) => (.ok (), ⟨store.index.apply change, writer, seq⟩, file)

end JournaledIndex

end Curtail
