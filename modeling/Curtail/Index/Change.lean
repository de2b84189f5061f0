import Curtail.Entity.Event
import Curtail.Entity.Proof
import Curtail.Entity.Settlement

namespace Curtail

open Json

inductive TxSlot
  | create
  | close
  | submit (site : SiteId)
  | settle (site : SiteId)
  | claim (site : SiteId)
  deriving DecidableEq, Repr

namespace TxSlot

def encodeSlot : TxSlot → Tree
  | .create => .text "event_create"
  | .close => .text "event_close"
  | .submit site => .record (Tree.field "proof_submit" site)
  | .settle site => .record (Tree.field "settle" site)
  | .claim site => .record (Tree.field "claim" site)

def decodeSlot (t : Tree) : Option TxSlot :=
  match t.choice? with
  | some ("event_create", .null) => some .create
  | some ("event_close", .null) => some .close
  | some ("proof_submit", site) => (decode site).map .submit
  | some ("settle", site) => (decode site).map .settle
  | some ("claim", site) => (decode site).map .claim
  | _ => none

instance : Codec TxSlot where
  encode := encodeSlot
  decode := decodeSlot

end TxSlot

structure TxRef where
  event : EventId
  slot : TxSlot
  deriving DecidableEq, Repr

instance : Codec TxRef where
  encode r := .record (Tree.field "event_id" r.event ++ Tree.field "slot" r.slot)
  decode t := do
    let ms ← Members.of? ["event_id", "slot"] t
    return ⟨← ms.required "event_id", ← ms.required "slot"⟩

structure TxUpdate where
  target : TxRef
  record : TxRecord
  deriving DecidableEq

instance : Codec TxUpdate where
  encode u := .record (Tree.field "target" u.target ++ Tree.field "record" u.record)
  decode t := do
    let ms ← Members.of? ["target", "record"] t
    return ⟨← ms.required "target", ← ms.required "record"⟩

inductive Change
  | insertEvent (event : Event)
  | closeEvent (event : EventId) (closeTx : TxRecord) (closedAt : Instant)
  | insertProof (proof : Proof)
  | settleEvent (event : EventId) (settlements : List Settlement) (settledAt : Instant)
  | claimSettlement (event : EventId) (site : SiteId) (claimTx : TxRecord) (claimedAt : Instant)
  | upsertAudit (request : AuditRequest)
  | applyTxUpdates (updates : List TxUpdate)
  | recordOrphan (orphan : Orphan)
  deriving DecidableEq

namespace Change

def name : Change → String
  | .insertEvent _ => "insert_event"
  | .closeEvent .. => "close_event"
  | .insertProof _ => "insert_proof"
  | .settleEvent .. => "settle_event"
  | .claimSettlement .. => "claim_settlement"
  | .upsertAudit _ => "upsert_audit"
  | .applyTxUpdates _ => "apply_tx_updates"
  | .recordOrphan _ => "record_orphan"

def content : Change → List (String × Tree)
  | .insertEvent event => Tree.field "event" event
  | .closeEvent event closeTx closedAt =>
    Tree.field "event_id" event ++ Tree.field "close_tx" closeTx ++ Tree.field "closed_at" closedAt
  | .insertProof proof => Tree.field "proof" proof
  | .settleEvent event settlements settledAt =>
    Tree.field "event_id" event ++ Tree.field "settlements" settlements ++
      Tree.field "settled_at" settledAt
  | .claimSettlement event site claimTx claimedAt =>
    Tree.field "event_id" event ++ Tree.field "site_id" site ++ Tree.field "claim_tx" claimTx ++
      Tree.field "claimed_at" claimedAt
  | .upsertAudit request => Tree.field "request" request
  | .applyTxUpdates updates => Tree.field "updates" updates
  | .recordOrphan orphan => Tree.field "orphan" orphan

def ofContent? (name : String) (t : Tree) : Option Change :=
  match name with
  | "insert_event" => do
    let ms ← Members.of? ["event"] t
    return .insertEvent (← ms.required "event")
  | "close_event" => do
    let ms ← Members.of? ["event_id", "close_tx", "closed_at"] t
    return .closeEvent (← ms.required "event_id") (← ms.required "close_tx")
      (← ms.required "closed_at")
  | "insert_proof" => do
    let ms ← Members.of? ["proof"] t
    return .insertProof (← ms.required "proof")
  | "settle_event" => do
    let ms ← Members.of? ["event_id", "settlements", "settled_at"] t
    return .settleEvent (← ms.required "event_id") (← ms.required "settlements")
      (← ms.required "settled_at")
  | "claim_settlement" => do
    let ms ← Members.of? ["event_id", "site_id", "claim_tx", "claimed_at"] t
    return .claimSettlement (← ms.required "event_id") (← ms.required "site_id")
      (← ms.required "claim_tx") (← ms.required "claimed_at")
  | "upsert_audit" => do
    let ms ← Members.of? ["request"] t
    return .upsertAudit (← ms.required "request")
  | "apply_tx_updates" => do
    let ms ← Members.of? ["updates"] t
    return .applyTxUpdates (← ms.required "updates")
  | "record_orphan" => do
    let ms ← Members.of? ["orphan"] t
    return .recordOrphan (← ms.required "orphan")
  | _ => none

instance : Codec Change where
  encode c := .record [(c.name, .record c.content)]
  decode t := t.choice?.bind fun (name, content) => ofContent? name content

end Change

structure Commit where
  seq : UInt64
  change : Change
  deriving DecidableEq

instance : Codec Commit where
  encode c := .record (Tree.field "seq" c.seq ++ Tree.field "mutation" c.change)
  decode t := do
    let ms ← Members.of? ["seq", "mutation"] t
    return ⟨← ms.required "seq", ← ms.required "mutation"⟩

end Curtail
