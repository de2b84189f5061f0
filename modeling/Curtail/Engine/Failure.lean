import Curtail.Index.Store
import Curtail.Entity.Proof

namespace Curtail

open Json

inductive FailureKind
  | validation
  | conflict
  | notFound
  | forbidden
  | integrity
  | externalFailure
  | storageFailure
  deriving DecidableEq, Repr

def FailureKind.name : FailureKind → String
  | .validation => "validation"
  | .conflict => "conflict"
  | .notFound => "not_found"
  | .forbidden => "forbidden"
  | .integrity => "integrity"
  | .externalFailure => "external_failure"
  | .storageFailure => "storage_failure"

inductive Failure
  | emptyWindow (start stop : Instant)
  | noSites (event : EventId)
  | invalidPayload (cause : PayloadError)
  | proofTooLarge (size most : Nat)
  | eventNotActive (event : EventId) (status : EventStatus)
  | eventNotClosed (event : EventId)
  | proofMissing (key : SiteKey)
  | eventExists (event : EventId)
  | eventAlreadyClosed (event : EventId)
  | eventAlreadySettled (event : EventId)
  | proofExists (key : SiteKey)
  | alreadySettled (key : SiteKey)
  | notClaimable (key : SiteKey) (status : SettlementStatus)
  | eventNotFound (event : EventId)
  | proofNotFound (key : SiteKey)
  | settlementNotFound (key : SiteKey)
  | notSubmitter (key : SiteKey) (claimant : ActorId)
  | hashMismatch (declared : String) (computed : ProofHash)
  | ledger (action : LedgerAction) (cause : LedgerError)
  | ledgerCheck (handle : TxHandle) (failed checks : Nat) (cause : LedgerError)
  | storage (cause : StoreError) (orphan : Option TxHandle)
  deriving DecidableEq

namespace Failure

def message : Failure → String
  | .emptyWindow start stop =>
    "event window is empty: start " ++ start.display ++ " is not before end " ++ stop.display
  | .noSites event => "no sites to settle for event " ++ event.text
  | .invalidPayload cause => "invalid proof payload: " ++ cause.message
  | .proofTooLarge size most =>
    "proof record of " ++ toString size ++ " bytes exceeds the store limit of " ++ toString most ++
      " bytes"
  | .eventNotActive event status =>
    "event " ++ event.text ++ " is " ++ status.name ++ ", proofs require an active event"
  | .eventNotClosed event => "event " ++ event.text ++ " must be closed before settlement"
  | .proofMissing key =>
    "proof missing for site " ++ key.site.text ++ " of event " ++ key.event.text
  | .eventExists event => "event " ++ event.text ++ " already exists"
  | .eventAlreadyClosed event => "event " ++ event.text ++ " already closed"
  | .eventAlreadySettled event => "event " ++ event.text ++ " already settled"
  | .proofExists key => "proof already submitted for " ++ key.text
  | .alreadySettled key => "settlement already exists for " ++ key.text
  | .notClaimable key status =>
    "settlement for " ++ key.text ++ " is " ++ status.name ++ ", not claimable"
  | .eventNotFound event => "event " ++ event.text ++ " not found"
  | .proofNotFound key => "proof not found for " ++ key.text
  | .settlementNotFound key => "settlement not found for " ++ key.text
  | .notSubmitter key claimant =>
    claimant.text ++ " is not the proof submitter for " ++ key.text
  | .hashMismatch declared computed =>
    "declared proof hash " ++ declared ++ " does not match computed " ++ computed.text
  | .ledger action cause => "ledger " ++ action.name ++ " failed: " ++ cause.message
  | .ledgerCheck handle failed checks cause =>
    "ledger check of " ++ handle.text ++ " failed (" ++ toString failed ++ " of " ++
      toString checks ++ " checks): " ++ cause.message
  | .storage cause _ => "storage failure: " ++ cause.message

def ledgerCode : LedgerError → String
  | .malformed _ => "CHAIN_TX_INVALID_RESPONSE"
  | .transport _ | .rejected _ => "CHAIN_TX_FAILED"

def code : Failure → String
  | .emptyWindow .. => "INVALID_TIME_WINDOW"
  | .noSites _ => "EMPTY_SITE_IDS"
  | .invalidPayload _ => "INVALID_PROOF_PAYLOAD"
  | .proofTooLarge .. => "INVALID_PROOF_PAYLOAD"
  | .eventNotActive .. => "EVENT_NOT_ACTIVE"
  | .eventNotClosed _ => "EVENT_NOT_CLOSED"
  | .proofMissing _ => "PROOF_MISSING"
  | .eventExists _ => "EVENT_EXISTS"
  | .eventAlreadyClosed _ => "EVENT_ALREADY_CLOSED"
  | .eventAlreadySettled _ => "EVENT_ALREADY_SETTLED"
  | .proofExists _ => "PROOF_EXISTS"
  | .alreadySettled _ => "ALREADY_SETTLED"
  | .notClaimable .. => "NOT_CLAIMABLE"
  | .eventNotFound _ => "EVENT_NOT_FOUND"
  | .proofNotFound _ => "PROOF_NOT_FOUND"
  | .settlementNotFound _ => "SETTLEMENT_NOT_FOUND"
  | .notSubmitter .. => "NOT_PROOF_SUBMITTER"
  | .hashMismatch .. => "PROOF_HASH_MISMATCH"
  | .ledger _ cause => ledgerCode cause
  | .ledgerCheck _ _ _ cause => ledgerCode cause
  | .storage .. => "STORAGE_FAILURE"

def kind : Failure → FailureKind
  | .emptyWindow .. | .noSites _ | .invalidPayload _ | .proofTooLarge .. | .eventNotActive ..
  | .eventNotClosed _ | .proofMissing _ => .validation
  | .eventExists _ | .eventAlreadyClosed _ | .eventAlreadySettled _ | .proofExists _
  | .alreadySettled _ | .notClaimable .. => .conflict
  | .eventNotFound _ | .proofNotFound _ | .settlementNotFound _ => .notFound
  | .notSubmitter .. => .forbidden
  | .hashMismatch .. => .integrity
  | .ledger .. | .ledgerCheck .. => .externalFailure
  | .storage .. => .storageFailure

def retryable (f : Failure) : Bool :=
  f.kind = .externalFailure || f.kind = .storageFailure

def eventDetails (event : EventId) : List (String × Value) :=
  [("event_id", .string event.text)]

def keyDetails (key : SiteKey) : List (String × Value) :=
  [("event_id", .string key.event.text), ("site_id", .string key.site.text)]

def details : Failure → List (String × Value)
  | .emptyWindow start stop =>
    [("start_time", .string start.text), ("end_time", .string stop.text)]
  | .noSites event => eventDetails event
  | .invalidPayload _ => []
  | .proofTooLarge size most => [("size", .nat size), ("max", .nat most)]
  | .eventNotActive event status => eventDetails event ++ [("status", .string status.name)]
  | .eventNotClosed event => eventDetails event
  | .proofMissing key => keyDetails key
  | .eventExists event => eventDetails event
  | .eventAlreadyClosed event => eventDetails event
  | .eventAlreadySettled event => eventDetails event
  | .proofExists key => keyDetails key
  | .alreadySettled key => keyDetails key
  | .notClaimable key status => keyDetails key ++ [("status", .string status.name)]
  | .eventNotFound event => eventDetails event
  | .proofNotFound key => keyDetails key
  | .settlementNotFound key => keyDetails key
  | .notSubmitter key claimant => keyDetails key ++ [("actor_id", .string claimant.text)]
  | .hashMismatch declared computed =>
    [("declared", .string declared), ("computed", .string computed.text)]
  | .ledger action _ => [("action", .string action.name)]
  | .ledgerCheck handle failed checks _ =>
    [("handle", .string handle.text), ("failed_checks", .nat failed), ("checks", .nat checks)]
  | .storage _ orphan =>
    match orphan with
    | some handle => [("orphan_tx", .string handle.text)]
    | none => []

def envelope (f : Failure) : Tree :=
  .record [("code", .text f.code), ("kind", .text f.kind.name), ("message", .text f.message),
    ("retryable", .bool f.retryable), ("details", (Value.record f.details).tree)]

def ofConflict (action : LedgerAction) : Conflict → Failure
  | .eventExists event => .eventExists event
  | .proofExists event site => .proofExists ⟨event, site⟩
  | .settlementExists event site => .alreadySettled ⟨event, site⟩
  | .eventStatus event _ found =>
    match action, found with
    | .submitProof, status => .eventNotActive event status
    | _, .closed => .eventAlreadyClosed event
    | _, .settled => .eventAlreadySettled event
    | _, .active => .eventNotClosed event
  | .settlementStatus event site found => .notClaimable ⟨event, site⟩ found

/-- A conflict reads as if the other change had come first. -/
def ofCommit (action : LedgerAction) (tx : TxRecord) : StoreError → Failure
  | .rejected (.conflict c) => ofConflict action c
  | e => .storage e (some tx.handle)

end Failure

end Curtail
