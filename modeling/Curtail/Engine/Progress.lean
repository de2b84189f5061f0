import Curtail.Entity.Event
import Curtail.Entity.Proof
import Curtail.Entity.Settlement
import Curtail.Configuration

namespace Curtail

open Json

inductive Step
  | create
  | proofs
  | close
  | settle
  | claim
  | audit
  | completed
  deriving DecidableEq, Repr

def Step.name : Step → String
  | .create => "create"
  | .proofs => "proofs"
  | .close => "close"
  | .settle => "settle"
  | .claim => "claim"
  | .audit => "audit"
  | .completed => "completed"

inductive Health
  | pending
  | inProgress
  | done
  deriving DecidableEq, Repr

def Health.name : Health → String
  | .pending => "pending"
  | .inProgress => "in-progress"
  | .done => "done"

inductive ClaimStatus
  | pending
  | settled
  | claimed
  deriving DecidableEq, Repr

def ClaimStatus.name : ClaimStatus → String
  | .pending => "pending"
  | .settled => "settled"
  | .claimed => "claimed"

/-- Transactions of an event, each handle counted once. -/
structure Pipeline where
  total : Nat
  submitted : Nat
  confirmed : Nat
  failed : Nat
  deriving DecidableEq, Repr

namespace Pipeline

/-- A submitted transaction whose fee is known counts as confirmed. -/
def effectiveState (r : TxRecord) : TxState :=
  if r.state = .submitted && r.fee.isSome then .confirmed else r.state

def merge : TxState → TxState → TxState
  | .failed, _ => .failed
  | _, .failed => .failed
  | .submitted, _ => .submitted
  | _, .submitted => .submitted
  | .confirmed, .confirmed => .confirmed

def note (states : List (TxHandle × TxState)) (r : TxRecord) : List (TxHandle × TxState) :=
  match states with
  | [] => [(r.handle, effectiveState r)]
  | (handle, state) :: rest =>
    if handle = r.handle then (handle, merge state (effectiveState r)) :: rest
    else (handle, state) :: note rest r

def records (event : Event) (proofs : List Proof) (settlements : List Settlement) : List TxRecord :=
  event.createTx :: event.closeTx.toList ++ proofs.map (·.submitTx) ++
    settlements.map (·.settleTx) ++ settlements.filterMap (·.claimTx)

def ofRecords (records : List TxRecord) : Pipeline :=
  let states := (records.foldl note []).map (·.2)
  ⟨states.length, states.count .submitted, states.count .confirmed, states.count .failed⟩

end Pipeline

structure Progress where
  event : EventId
  status : EventStatus
  mode : ConfirmMode
  step : Step
  health : Health
  blocking : String
  hint : String
  completed : Nat
  total : Nat
  percent : Nat
  proofsSubmitted : Nat
  proofsRequired : Nat
  totalReduction : UInt64
  totalPayout : Int64
  focus : SiteId
  claimStatus : ClaimStatus
  auditRequested : Bool
  auditMatch : Option Bool
  pipeline : Pipeline
  lastTransitionAt : Option Instant
  createdAt : Instant
  closedAt : Option Instant
  settledAt : Option Instant
  deriving DecidableEq

namespace Progress

def missingSites (c : Configuration) (proofs : List Proof) : List SiteId :=
  c.requiredSites.filter fun site => !(proofs.any fun p => p.site = site)

def claimStatusOf (focus : SiteId) (settlements : List Settlement) : ClaimStatus :=
  match settlements.find? fun s => s.site = focus with
  | none => .pending
  | some row =>
    match row.status with
    | .settled => .settled
    | .claimed => .claimed

def milestones (c : Configuration) (event : Event) (proofs : List Proof)
    (settlements : List Settlement) (audit : Option AuditRequest) : List (Step × Bool) :=
  [(.create, true), (.proofs, (missingSites c proofs).isEmpty), (.close, event.status ≠ .active),
    (.settle, !settlements.isEmpty), (.claim, claimStatusOf c.focus settlements = .claimed),
    (.audit, audit.isSome)]

def stepOf (milestones : List (Step × Bool)) : Step :=
  match milestones.find? fun m => !m.2 with
  | some (step, _) => step
  | none => .completed

def blockingReason (missing : List SiteId) (focus : SiteId) : Step → String
  | .create => "Create event to initialize the workflow."
  | .proofs => "Missing proofs: " ++ ", ".intercalate (missing.map (·.text)) ++ "."
  | .close => "Proofs ready. Event must be closed before settlement."
  | .settle => "Event closed. Settlement execution pending."
  | .claim => "Settlement done. Claim for " ++ focus.text ++ " pending."
  | .audit => "Claim complete. Audit verification pending."
  | .completed => "No blockers."

def hintFor : Step → String
  | .create => "An event is needed before proofs can be collected."
  | .proofs => "Collect required participant proofs to enable settlement lock."
  | .close => "Close event to lock payout calculation scope."
  | .settle => "Trigger settlement to compute payout records."
  | .claim => "Complete claim to finalize participant payout."
  | .audit => "Run audit to verify the recorded and recomputed proof hash."
  | .completed => "Closed loop finalized with payout and audit evidence."

def hashHolds (focus : SiteId) (proofs : List Proof) : Option Bool :=
  (proofs.find? fun p => p.site = focus).map fun p => Payload.hashOf p.payload = p.hash

def addReduction (total reduction : UInt64) : UInt64 :=
  if total.toNat + reduction.toNat < 0x10000000000000000 then total + reduction else 18446744073709551615

def addPayout (total payout : Int64) : Int64 :=
  Int64.ofInt (Scoring.clamp (-0x8000000000000000) 0x7fffffffffffffff (total.toInt + payout.toInt))

def transitions (event : Event) (proofs : List Proof) (settlements : List Settlement)
    (audit : Option AuditRequest) : List Instant :=
  event.createdAt :: event.closedAt.toList ++ event.settledAt.toList ++
    proofs.map (·.submittedAt) ++ settlements.map (·.settledAt) ++
    settlements.filterMap (·.claimedAt) ++ (audit.map (·.requestedAt)).toList

def latest : List Instant → Option Instant
  | [] => none
  | t :: ts => some (ts.foldl Instant.later t)

def percentOf (completed : Nat) : Nat := (200 * completed + 6) / 12

def of (c : Configuration) (event : Event) (proofs : List Proof) (settlements : List Settlement)
    (audit : Option AuditRequest) : Progress :=
  let missing := missingSites c proofs
  let milestones := milestones c event proofs settlements audit
  let step := stepOf milestones
  let completed := milestones.countP (·.2)
  { event := event.id
    status := event.status
    mode := c.mode
    step
    health := if completed = 0 then .pending else if step = .completed then .done else .inProgress
    blocking := blockingReason missing c.focus step
    hint := hintFor step
    completed
    total := 6
    percent := percentOf completed
    proofsSubmitted := c.requiredSites.length - missing.length
    proofsRequired := c.requiredSites.length
    totalReduction := (proofs.map (·.reduction)).foldl addReduction 0
    totalPayout := (settlements.map (·.payout)).foldl addPayout 0
    focus := c.focus
    claimStatus := claimStatusOf c.focus settlements
    auditRequested := audit.isSome
    auditMatch := if audit.isSome then hashHolds c.focus proofs else none
    pipeline := .ofRecords (Pipeline.records event proofs settlements)
    lastTransitionAt := latest (transitions event proofs settlements audit)
    createdAt := event.createdAt
    closedAt := event.closedAt
    settledAt := event.settledAt }

def tree (p : Progress) : Tree :=
  .record [("event_id", encode p.event), ("event_status", encode p.status),
    ("confirm_mode", encode p.mode), ("current_step", .text p.step.name),
    ("health", .text p.health.name), ("blocking_reason", .text p.blocking),
    ("agent_hint", .text p.hint), ("progress_completed", .nat p.completed),
    ("progress_total", .nat p.total), ("progress_pct", .nat p.percent),
    ("proof_submitted", .nat p.proofsSubmitted), ("proof_required", .nat p.proofsRequired),
    ("total_reduction_kwh", encode p.totalReduction), ("total_payout", encode p.totalPayout),
    ("focus_site", encode p.focus), ("claim_status", .text p.claimStatus.name),
    ("audit_requested", .bool p.auditRequested), ("audit_match", encode p.auditMatch),
    ("tx_pipeline", .record [("total", .nat p.pipeline.total),
      ("submitted", .nat p.pipeline.submitted), ("confirmed", .nat p.pipeline.confirmed),
      ("failed", .nat p.pipeline.failed)]),
    ("last_transition_at", encode p.lastTransitionAt), ("created_at", encode p.createdAt),
    ("closed_at", encode p.closedAt), ("settled_at", encode p.settledAt)]

end Progress

end Curtail
