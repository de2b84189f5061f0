import Curtail.Ledger.Transaction
import Curtail.Digest.ProofHash
import Curtail.Json.Canonical
import Curtail.Scoring

namespace Curtail

open Json

structure Proof where
  event : EventId
  site : SiteId
  baseline : UInt64
  actual : UInt64
  reduction : UInt64
  method : MethodTag
  uri : String
  payload : String
  hash : ProofHash
  submitTx : TxRecord
  submitter : ActorId
  submittedAt : Instant
  deriving DecidableEq

namespace Proof

def key (p : Proof) : SiteKey := ⟨p.event, p.site⟩

instance : Codec Proof where
  encode p := .record (Tree.field "event_id" p.event ++ Tree.field "site_id" p.site ++
    Tree.field "baseline_kwh" p.baseline ++ Tree.field "actual_kwh" p.actual ++
    Tree.field "reduction_kwh" p.reduction ++ Tree.field "baseline_method" p.method ++
    Tree.field "uri" p.uri ++ Tree.field "payload" p.payload ++ Tree.field "proof_hash" p.hash ++
    Tree.field "submit_tx" p.submitTx ++ Tree.field "submitter" p.submitter ++
    Tree.field "submitted_at" p.submittedAt)
  decode t := do
    let ms ← Members.of? ["event_id", "site_id", "baseline_kwh", "actual_kwh", "reduction_kwh",
      "baseline_method", "uri", "payload", "proof_hash", "submit_tx", "submitter", "submitted_at"] t
    return {
      event := ← ms.required "event_id"
      site := ← ms.required "site_id"
      baseline := ← ms.required "baseline_kwh"
      actual := ← ms.required "actual_kwh"
      reduction := ← ms.required "reduction_kwh"
      method := ← ms.required "baseline_method"
      uri := ← ms.required "uri"
      payload := ← ms.required "payload"
      hash := ← ms.required "proof_hash"
      submitTx := ← ms.required "submit_tx"
      submitter := ← ms.required "submitter"
      submittedAt := ← ms.required "submitted_at" }

end Proof

structure Submission where
  event : EventId
  site : SiteId
  baseline : UInt64
  actual : UInt64
  method : MethodTag
  uri : String
  raw : Option Value
  declaredHash : Option String
  submitter : ActorId

namespace Submission

/-- Raw evidence lies within the record, which takes up one level of nesting. -/
def decodeRaw : Tree → Option (Option Value)
  | .null => some none
  | t => (t.value? (Tree.depthLimit - 1)).map some

instance : Codec Submission where
  encode s := .record (Tree.field "event_id" s.event ++ Tree.field "site_id" s.site ++
    Tree.field "baseline_kwh" s.baseline ++ Tree.field "actual_kwh" s.actual ++
    Tree.field "baseline_method" s.method ++ Tree.field "uri" s.uri ++
    [("raw_payload", (s.raw.map Value.tree).getD .null)] ++
    Tree.field "proof_hash" s.declaredHash ++ Tree.field "submitter" s.submitter)
  decode t := do
    let ms ← Members.of? ["event_id", "site_id", "baseline_kwh", "actual_kwh", "baseline_method",
      "uri", "raw_payload", "proof_hash", "submitter"] t
    return {
      event := ← ms.required "event_id"
      site := ← ms.required "site_id"
      baseline := ← ms.required "baseline_kwh"
      actual := ← ms.required "actual_kwh"
      method := ← ms.required "baseline_method"
      uri := ← ms.required "uri"
      raw := ← ms.defaulted "raw_payload" none decodeRaw
      declaredHash := ← ms.defaulted "proof_hash" none decode
      submitter := ← ms.required "submitter" }

end Submission

inductive PayloadError
  | notAnObject (kind : String)
  deriving DecidableEq, Repr

def PayloadError.message : PayloadError → String
  | .notAnObject kind => "raw_payload must be a JSON object, got " ++ kind

structure PayloadInput where
  event : EventId
  site : SiteId
  baseline : UInt64
  actual : UInt64
  method : MethodTag
  raw : Option Value
  createdAt : Instant

structure Payload where
  text : String
  reduction : UInt64
  hash : ProofHash
  deriving DecidableEq

namespace Payload

def hashOf (text : String) : ProofHash := ProofHash.ofBytes (Bytes.ofText text)

def rawMembers? : Option Value → Except PayloadError (List (String × Value))
  | none => .ok []
  | some (.object members) => .ok members
  | some v => .error (.notAnObject v.kind)

/-- Instants are cut to the second. -/
def value (input : PayloadInput) (raw : List (String × Value)) : Value :=
  .record [("event_id", .string input.event.text), ("site_id", .string input.site.text),
    ("baseline_kwh", .nat input.baseline.toNat), ("actual_kwh", .nat input.actual.toNat),
    ("reduction_kwh", .nat (Scoring.reduction input.baseline input.actual).toNat),
    ("baseline_method", .string input.method.text), ("raw_payload", .object raw),
    ("created_at", .string input.createdAt.textToSecond)]

def of? (input : PayloadInput) : Except PayloadError Payload := do
  let raw ← rawMembers? input.raw
  let text := (value input raw).canonicalText
  return ⟨text, Scoring.reduction input.baseline input.actual, hashOf text⟩

end Payload

end Curtail
