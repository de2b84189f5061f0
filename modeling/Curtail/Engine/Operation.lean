import Curtail.Engine.Program
import Curtail.Engine.Failure
import Curtail.Configuration

/-!
Operations of the engine that write. Each checks first, then calls the ledger, then commits a single
change; a transaction whose change could not be committed is recorded as an orphan.
-/

namespace Curtail

open Json

abbrev Operation (α : Type) := ExceptT Failure Program α

namespace Operation

def fail {α : Type} (f : Failure) : Operation α := throw f

def now : Operation Instant := do
  let t : Instant ← ExceptT.lift (Program.request .now)
  return t.wholeSecond

def commitLimit : Operation (Option Nat) := ExceptT.lift (Program.request .commitLimit)

def query (q : Query) : Operation q.Answer := do
  let reply : Except StoreError q.Answer ← ExceptT.lift (Program.request (.query q))
  match reply with
  | .ok answer => return answer
  | .error e => fail (.storage e none)

def tryCommit (change : Change) : Operation (Except StoreError Unit) :=
  ExceptT.lift (Program.request (.commit change))

def commit (change : Change) : Operation Unit := do
  match ← tryCommit change with
  | .ok () => return ()
  | .error e => fail (.storage e none)

def tryCheck (handle : TxHandle) : Operation (Except LedgerError TxCheck) :=
  ExceptT.lift (Program.request (.check handle))

def submit (mode : ConfirmMode) (action : LedgerAction) (payload : Value) : Operation TxRecord := do
  let reply : Except LedgerError TxResult ←
    ExceptT.lift (Program.request (.submit action payload mode))
  match reply with
  | .ok result => return .ofResult result
  | .error e => fail (.ledger action e)

/-- Commits the change that accounts for a transaction, or else records an orphan. -/
def commitSubmitted (action : LedgerAction) (event : EventId) (site : Option SiteId) (tx : TxRecord)
    (change : Change) : Operation Unit := do
  match ← tryCommit change with
  | .ok () => return ()
  | .error e =>
    let recordedAt ← now
    let _ ← tryCommit (.recordOrphan ⟨action, event, site, tx, e.message, recordedAt⟩)
    fail (.ofCommit action tx e)

def requireEvent (id : EventId) : Operation Event := do
  match ← query (.event id) with
  | some event => return event
  | none => fail (.eventNotFound id)

def requireProof (key : SiteKey) : Operation Proof := do
  match ← query (.proof key) with
  | some proof => return proof
  | none => fail (.proofNotFound key)

def createEvent (c : Configuration) (plan : EventPlan) : Operation Event := do
  if compare plan.start plan.stop ≠ .lt then fail (.emptyWindow plan.start plan.stop)
  let found ← query (.event plan.id)
  if found.isSome then fail (.eventExists plan.id)
  let tx ← submit c.mode .createEvent plan.announcement
  let createdAt ← now
  let event : Event :=
    { id := plan.id, start := plan.start, stop := plan.stop, target := plan.target,
      rewardRate := plan.rewardRate, penaltyRate := plan.penaltyRate, status := .active,
      createTx := tx, closeTx := none, createdAt, closedAt := none, settledAt := none }
  commitSubmitted .createEvent event.id none tx (.insertEvent event)
  return event

def closeEvent (c : Configuration) (id : EventId) : Operation Event := do
  let event ← requireEvent id
  match event.status with
  | .active => pure ()
  | .closed => fail (.eventAlreadyClosed id)
  | .settled => fail (.eventAlreadySettled id)
  let tx ← submit c.mode .closeEvent (.record [("event_id", .string id.text)])
  let closedAt ← now
  commitSubmitted .closeEvent id none tx (.closeEvent id tx closedAt)
  return { event with status := .closed, closeTx := some tx, closedAt := some closedAt }

def proofHeadroom : Nat := 16 * 1024

def quotedSize (s : String) : Nat := (String.ofList (Tree.quote (some s))).utf8ByteSize

def checkProofSize (payload uri : String) : Operation Unit := do
  match ← commitLimit with
  | none => return ()
  | some most =>
    let size := quotedSize payload + quotedSize uri + proofHeadroom
    if most < size then fail (.proofTooLarge size most)

def makePayload (s : Submission) (createdAt : Instant) : Operation Payload :=
  match Payload.of? ⟨s.event, s.site, s.baseline, s.actual, s.method, s.raw, createdAt⟩ with
  | .ok payload => return payload
  | .error e => fail (.invalidPayload e)

def checkDeclared (declared : Option String) (computed : ProofHash) : Operation Unit :=
  match declared with
  | none => return ()
  | some text =>
    if ProofHash.declares text computed then return () else fail (.hashMismatch text computed)

def submitProof (c : Configuration) (s : Submission) : Operation Proof := do
  let event ← requireEvent s.event
  if event.status ≠ .active then fail (.eventNotActive event.id event.status)
  let key : SiteKey := ⟨s.event, s.site⟩
  let found ← query (.proof key)
  if found.isSome then fail (.proofExists key)
  let submittedAt ← now
  let payload ← makePayload s submittedAt
  checkDeclared s.declaredHash payload.hash
  checkProofSize payload.text s.uri
  let tx ← submit c.mode .submitProof (.record [("event_id", .string s.event.text),
    ("site_id", .string s.site.text), ("baseline_kwh", .nat s.baseline.toNat),
    ("actual_kwh", .nat s.actual.toNat), ("proof_hash", .string payload.hash.text),
    ("uri", .string s.uri)])
  let proof : Proof :=
    { event := s.event, site := s.site, baseline := s.baseline, actual := s.actual,
      reduction := payload.reduction, method := s.method, uri := s.uri, payload := payload.text,
      hash := payload.hash, submitTx := tx, submitter := s.submitter, submittedAt }
  commitSubmitted .submitProof proof.event (some proof.site) tx (.insertProof proof)
  return proof

def payouts (event : Event) (id : EventId) (share : UInt64) :
    List SiteId → Operation (List (SiteId × Int64))
  | [] => return []
  | site :: sites => do
    let key : SiteKey := ⟨id, site⟩
    match ← query (.proof key) with
    | none => fail (.proofMissing key)
    | some proof =>
      let found ← query (.settlement key)
      if found.isSome then fail (.alreadySettled key)
      let payout := Scoring.payout proof.reduction share event.rewardRate event.penaltyRate
      let others ← payouts event id share sites
      return (site, payout) :: others

def sitesToSettle (id : EventId) (requested : List SiteId) : Operation (List SiteId) := do
  if requested = [] then
    let proofs : List Proof ← query (.proofs id)
    return firsts (proofs.map (·.site))
  else return firsts requested

def settleEvent (c : Configuration) (id : EventId) (requested : List SiteId) :
    Operation (List Settlement) := do
  let event ← requireEvent id
  match event.status with
  | .closed => pure ()
  | .settled => fail (.eventAlreadySettled id)
  | .active => fail (.eventNotClosed id)
  let sites ← sitesToSettle id requested
  match Scoring.targetShare event.target sites.length with
  | none => fail (.noSites id)
  | some share =>
    let payouts ← payouts event id share sites
    let tx ← submit c.mode .settleEvent (.record [("event_id", .string id.text),
      ("site_ids", .array (sites.map fun site => .string site.text))])
    let settledAt ← now
    let rows := payouts.map fun (site, payout) =>
      ({ event := id, site, payout, status := .settled, settleTx := tx, claimTx := none,
         settledAt, claimedAt := none } : Settlement)
    commitSubmitted .settleEvent id none tx (.settleEvent id rows settledAt)
    return rows

def claimReward (c : Configuration) (key : SiteKey) (claimant : ActorId) : Operation Settlement := do
  match ← query (.settlement key) with
  | none => fail (.settlementNotFound key)
  | some row =>
    if row.status ≠ .settled then fail (.notClaimable key row.status)
    let proof ← requireProof key
    if proof.submitter ≠ claimant then fail (.notSubmitter key claimant)
    let tx ← submit c.mode .claimReward (.record [("event_id", .string key.event.text),
      ("site_id", .string key.site.text)])
    let claimedAt ← now
    commitSubmitted .claimReward key.event (some key.site) tx
      (.claimSettlement key.event key.site tx claimedAt)
    return { row with status := .claimed, claimTx := some tx, claimedAt := some claimedAt }

end Operation

end Curtail
