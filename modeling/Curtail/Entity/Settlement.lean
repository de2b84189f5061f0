import Curtail.Ledger.Simulated

namespace Curtail

open Json

inductive SettlementStatus
  | settled
  | claimed
  deriving DecidableEq, Repr

namespace SettlementStatus

def name : SettlementStatus → String
  | .settled => "settled"
  | .claimed => "claimed"

def ofName? : String → Option SettlementStatus
  | "settled" => some .settled
  | "claimed" => some .claimed
  | _ => none

instance : Codec SettlementStatus where
  encode s := .text s.name
  decode t := t.word?.bind ofName?

end SettlementStatus

structure Settlement where
  event : EventId
  site : SiteId
  payout : Int64
  status : SettlementStatus
  settleTx : TxRecord
  claimTx : Option TxRecord
  settledAt : Instant
  claimedAt : Option Instant
  deriving DecidableEq

instance : Codec Settlement where
  encode s := .record (Tree.field "event_id" s.event ++ Tree.field "site_id" s.site ++
    Tree.field "payout" s.payout ++ Tree.field "status" s.status ++
    Tree.field "settle_tx" s.settleTx ++ Tree.optionalField "claim_tx" s.claimTx ++
    Tree.field "settled_at" s.settledAt ++ Tree.optionalField "claimed_at" s.claimedAt)
  decode t := do
    let ms ← Members.of? ["event_id", "site_id", "payout", "status", "settle_tx", "claim_tx",
      "settled_at", "claimed_at"] t
    return {
      event := ← ms.required "event_id"
      site := ← ms.required "site_id"
      payout := ← ms.required "payout"
      status := ← ms.required "status"
      settleTx := ← ms.required "settle_tx"
      claimTx := ← ms.optional "claim_tx"
      settledAt := ← ms.required "settled_at"
      claimedAt := ← ms.optional "claimed_at" }

structure AuditRequest where
  event : EventId
  site : SiteId
  requestedAt : Instant
  deriving DecidableEq

def AuditRequest.key (r : AuditRequest) : SiteKey := ⟨r.event, r.site⟩

instance : Codec AuditRequest where
  encode r := .record (Tree.field "event_id" r.event ++ Tree.field "site_id" r.site ++
    Tree.field "requested_at" r.requestedAt)
  decode t := do
    let ms ← Members.of? ["event_id", "site_id", "requested_at"] t
    return ⟨← ms.required "event_id", ← ms.required "site_id", ← ms.required "requested_at"⟩

/-- A transaction of the ledger whose entity could not be stored. -/
structure Orphan where
  action : LedgerAction
  event : EventId
  site : Option SiteId
  tx : TxRecord
  reason : String
  recordedAt : Instant
  deriving DecidableEq

instance : Codec Orphan where
  encode o := .record (Tree.field "action" o.action ++ Tree.field "event_id" o.event ++
    Tree.optionalField "site_id" o.site ++ Tree.field "tx" o.tx ++ Tree.field "reason" o.reason ++
    Tree.field "recorded_at" o.recordedAt)
  decode t := do
    let ms ← Members.of? ["action", "event_id", "site_id", "tx", "reason", "recorded_at"] t
    return ⟨← ms.required "action", ← ms.required "event_id", ← ms.optional "site_id",
      ← ms.required "tx", ← ms.required "reason", ← ms.required "recorded_at"⟩

end Curtail
