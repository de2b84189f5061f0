import Curtail.Identifier
import Curtail.Instant.Text

namespace Curtail

open Json

abbrev Fee := Fin 0x100000000000000000000000000000000

inductive TxState
  | submitted
  | confirmed
  | failed
  deriving DecidableEq, Repr

namespace TxState

def name : TxState → String
  | .submitted => "submitted"
  | .confirmed => "confirmed"
  | .failed => "failed"

def ofName? : String → Option TxState
  | "submitted" => some .submitted
  | "confirmed" => some .confirmed
  | "failed" => some .failed
  | _ => none

def isTerminal : TxState → Bool
  | .submitted => false
  | .confirmed | .failed => true

instance : Codec TxState where
  encode s := .text s.name
  decode t := t.word?.bind ofName?

end TxState

inductive TxOutcome
  | submitted
  | confirmed (time : Instant)
  | failed (error : String)
  deriving DecidableEq

namespace TxOutcome

def state : TxOutcome → TxState
  | .submitted => .submitted
  | .confirmed _ => .confirmed
  | .failed _ => .failed

def confirmedAt? : TxOutcome → Option Instant
  | .confirmed t => some t
  | _ => none

def error? : TxOutcome → Option String
  | .failed e => some e
  | _ => none

def ofState? (content : List String → Option Members) : TxState → Option TxOutcome
  | .submitted => (content []).map fun _ => .submitted
  | .confirmed => do
    let ms ← content ["confirmed_at"]
    return .confirmed (← ms.required "confirmed_at")
  | .failed => do
    let ms ← content ["error"]
    return .failed (← ms.required "error")

def decode? (depth : Nat) (t : Tree) : Option TxOutcome := do
  let _ ← t.value? depth
  match t with
  | .object members =>
    let tag ← (← Members.of? ["state"] t).required "state"
    ofState? (fun fields => Members.of? fields (.object members)) (← TxState.ofName? tag)
  | .array (.string (some tag) :: items) =>
    ofState? (fun fields => Members.of? fields (.array items)) (← TxState.ofName? tag)
  | _ => none

instance : Codec TxOutcome where
  encode o := .record (Tree.field "state" o.state.name ++
    Tree.optionalField "confirmed_at" o.confirmedAt? ++ Tree.optionalField "error" o.error?)
  decode := decode? Tree.depthLimit

end TxOutcome

structure TxResult where
  handle : TxHandle
  fee : Option Fee
  outcome : TxOutcome
  submittedAt : Instant
  deriving DecidableEq

instance : Codec TxResult where
  encode r := .record (Tree.field "handle" r.handle ++ Tree.optionalField "fee_wei" r.fee ++
    Tree.field "outcome" r.outcome ++ Tree.field "submitted_at" r.submittedAt)
  decode t := do
    let ms ← Members.of? ["handle", "fee_wei", "outcome", "submitted_at"] t
    return ⟨← ms.required "handle", ← ms.optional "fee_wei",
      ← (ms.find? "outcome").bind (TxOutcome.decode? (Tree.depthLimit - 1)),
      ← ms.required "submitted_at"⟩

structure TxCheck where
  fee : Option Fee
  outcome : TxOutcome
  deriving DecidableEq

def TxCheck.decode? (depth : Nat) (t : Tree) : Option TxCheck := do
  let ms ← Members.of? ["fee_wei", "outcome"] t
  return ⟨← ms.optional "fee_wei", ← (ms.find? "outcome").bind (TxOutcome.decode? (depth - 1))⟩

instance : Codec TxCheck where
  encode c := .record (Tree.optionalField "fee_wei" c.fee ++ Tree.field "outcome" c.outcome)
  decode := TxCheck.decode? Tree.depthLimit

structure TxRecord where
  handle : TxHandle
  fee : Option Fee
  state : TxState
  submittedAt : Instant
  confirmedAt : Option Instant
  error : Option String
  deriving DecidableEq

namespace TxRecord

instance : Codec TxRecord where
  encode r := .record (Tree.field "handle" r.handle ++ Tree.optionalField "fee_wei" r.fee ++
    Tree.field "state" r.state ++ Tree.field "submitted_at" r.submittedAt ++
    Tree.optionalField "confirmed_at" r.confirmedAt ++ Tree.optionalField "error" r.error)
  decode t := do
    let ms ← Members.of? ["handle", "fee_wei", "state", "submitted_at", "confirmed_at", "error"] t
    return ⟨← ms.required "handle", ← ms.optional "fee_wei", ← ms.required "state",
      ← ms.required "submitted_at", ← ms.optional "confirmed_at", ← ms.optional "error"⟩

def ofResult (r : TxResult) : TxRecord :=
  ⟨r.handle, r.fee, r.outcome.state, r.submittedAt, r.outcome.confirmedAt?, r.outcome.error?⟩

def isPending (r : TxRecord) : Bool :=
  r.state = .submitted && r.fee.isNone

def advanced (r : TxRecord) (c : TxCheck) : Option TxRecord :=
  if r.state.isTerminal || c.outcome.state = .submitted then none
  else some ⟨r.handle, c.fee.or r.fee, c.outcome.state, r.submittedAt,
    c.outcome.confirmedAt?.or r.confirmedAt, c.outcome.error?⟩

end TxRecord

end Curtail
