import Curtail.Engine.Reconciliation
import Curtail.Engine.Progress

namespace Curtail

open Json

structure AuditReport where
  event : EventId
  site : SiteId
  storedHash : ProofHash
  recomputedHash : ProofHash
  holds : Bool
  uri : String
  requestedAt : Instant
  deriving DecidableEq

def AuditReport.tree (r : AuditReport) : Tree :=
  .record [("event_id", encode r.event), ("site_id", encode r.site),
    ("stored_hash", encode r.storedHash), ("recomputed_hash", encode r.recomputedHash),
    ("matches", .bool r.holds), ("raw_uri", .text r.uri), ("requested_at", encode r.requestedAt)]

namespace Operation

def reconcileEvent (id : EventId) : Operation Unit := do
  let _ ← reconcile (.event id)
  return ()

def getEvent (id : EventId) : Operation Event := do
  reconcileEvent id
  requireEvent id

def listSettlements (id : EventId) : Operation (List Settlement) := do
  reconcileEvent id
  let _ ← requireEvent id
  query (.settlements id)

def getProof (key : SiteKey) : Operation Proof := do
  reconcileEvent key.event
  requireProof key

def getAudit (key : SiteKey) : Operation AuditReport := do
  let proof ← requireProof key
  let requestedAt ← now
  commit (.upsertAudit ⟨key.event, key.site, requestedAt⟩)
  let recomputed := Payload.hashOf proof.payload
  return ⟨proof.event, proof.site, proof.hash, recomputed, recomputed = proof.hash, proof.uri,
    requestedAt⟩

def getSummary (c : Configuration) (id : EventId) : Operation Progress := do
  reconcileEvent id
  let event ← requireEvent id
  let proofs : List Proof ← query (.proofs id)
  let settlements : List Settlement ← query (.settlements id)
  let audit : Option AuditRequest ← query (.audit ⟨id, c.focus⟩)
  return .of c event proofs settlements audit

def listOrphans : Operation (List Orphan) := query .orphans

end Operation

end Curtail
