import Curtail.Index.Table
import Curtail.Index.Change

/-!
The index: events, proofs, settlements, audit requests and orphans, and the rules by which a change
of it is accepted. Main definitions: `Index.check`, which refuses a change or not, and
`Index.apply`, which makes an accepted one.
-/

namespace Curtail

inductive Conflict
  | eventExists (event : EventId)
  | proofExists (event : EventId) (site : SiteId)
  | settlementExists (event : EventId) (site : SiteId)
  | eventStatus (event : EventId) (expected found : EventStatus)
  | settlementStatus (event : EventId) (site : SiteId) (found : SettlementStatus)
  deriving DecidableEq, Repr

def Conflict.message : Conflict → String
  | .eventExists event => "event " ++ event.text ++ " already exists"
  | .proofExists event site => "proof for " ++ (SiteKey.mk event site).text ++ " already exists"
  | .settlementExists event site =>
    "settlement for " ++ (SiteKey.mk event site).text ++ " already exists"
  | .eventStatus event expected found =>
    "event " ++ event.text ++ " is " ++ found.name ++ ", expected " ++ expected.name
  | .settlementStatus event site found =>
    "settlement for " ++ (SiteKey.mk event site).text ++ " is " ++ found.name

inductive RowRef
  | event (id : EventId)
  | proof (key : SiteKey)
  | settlement (key : SiteKey)
  deriving DecidableEq, Repr

def RowRef.message : RowRef → String
  | .event id => "event not found: " ++ id.text
  | .proof key => "proof not found: " ++ key.text
  | .settlement key => "settlement not found: " ++ key.text

inductive Rejection
  | conflict (cause : Conflict)
  | notFound (row : RowRef)
  deriving DecidableEq, Repr

def Rejection.message : Rejection → String
  | .conflict c => "conflict: " ++ c.message
  | .notFound row => row.message

structure Index where
  events : Table EventId Event
  proofs : Table SiteKey Proof
  settlements : Table SiteKey Settlement
  audits : Table SiteKey AuditRequest
  orphans : List Orphan

structure PendingTx where
  target : TxRef
  record : TxRecord
  deriving DecidableEq

inductive Scope
  | all
  | event (id : EventId)
  deriving DecidableEq, Repr

def Scope.contains (scope : Scope) (id : EventId) : Bool :=
  match scope with
  | .all => true
  | .event e => e = id

namespace Index

def empty : Index := ⟨.empty, .empty, .empty, .empty, []⟩

def expectStatus (index : Index) (id : EventId) (expected : EventStatus) : Except Rejection Unit :=
  match index.events.get? id with
  | none => .error (.notFound (.event id))
  | some event =>
    if event.status = expected then .ok ()
    else .error (.conflict (.eventStatus id expected event.status))

def checkRow (index : Index) (id : EventId) (row : Settlement) : Except Rejection Unit :=
  let key : SiteKey := ⟨id, row.site⟩
  if !index.proofs.contains key then .error (.notFound (.proof key))
  else if index.settlements.contains key then .error (.conflict (.settlementExists id row.site))
  else .ok ()

/-- Every row is compared with the index as it is before the first of them goes in. -/
def checkRows (index : Index) (id : EventId) : List Settlement → Except Rejection Unit
  | [] => .ok ()
  | row :: rows =>
    match index.checkRow id row with
    | .error e => .error e
    | .ok () => index.checkRows id rows

def check (index : Index) : Change → Except Rejection Unit
  | .insertEvent event =>
    if index.events.contains event.id then .error (.conflict (.eventExists event.id)) else .ok ()
  | .closeEvent id _ _ => index.expectStatus id .active
  | .insertProof proof =>
    match index.expectStatus proof.event .active with
    | .error e => .error e
    | .ok () =>
      if index.proofs.contains proof.key then
        .error (.conflict (.proofExists proof.event proof.site))
      else .ok ()
  | .settleEvent id rows _ =>
    match index.expectStatus id .closed with
    | .error e => .error e
    | .ok () => index.checkRows id rows
  | .claimSettlement id site _ _ =>
    match index.settlements.get? ⟨id, site⟩ with
    | none => .error (.notFound (.settlement ⟨id, site⟩))
    | some row =>
      if row.status = .settled then .ok ()
      else .error (.conflict (.settlementStatus id site row.status))
  | .upsertAudit request =>
    if index.proofs.contains request.key then .ok () else .error (.notFound (.proof request.key))
  | .applyTxUpdates _ => .ok ()
  | .recordOrphan _ => .ok ()

def updated (record update : TxRecord) : TxRecord :=
  if record.state = .submitted ∧ record.handle = update.handle then update else record

def applyTxUpdate (index : Index) (u : TxUpdate) : Index :=
  let id := u.target.event
  match u.target.slot with
  | .create =>
    { index with events := index.events.modify id fun e =>
      { e with createTx := updated e.createTx u.record } }
  | .close =>
    { index with events := index.events.modify id fun e =>
      { e with closeTx := e.closeTx.map (updated · u.record) } }
  | .submit site =>
    { index with proofs := index.proofs.modify ⟨id, site⟩ fun p =>
      { p with submitTx := updated p.submitTx u.record } }
  | .settle site =>
    { index with settlements := index.settlements.modify ⟨id, site⟩ fun s =>
      { s with settleTx := updated s.settleTx u.record } }
  | .claim site =>
    { index with settlements := index.settlements.modify ⟨id, site⟩ fun s =>
      { s with claimTx := s.claimTx.map (updated · u.record) } }

def apply (index : Index) : Change → Index
  | .insertEvent event => { index with events := index.events.insert event.id event }
  | .closeEvent id closeTx closedAt =>
    { index with events := index.events.modify id fun e =>
      { e with status := .closed, closeTx := some closeTx, closedAt := some closedAt } }
  | .insertProof proof => { index with proofs := index.proofs.insert proof.key proof }
  | .settleEvent id rows settledAt =>
    { index with
      settlements := rows.foldl (fun table row => table.insert ⟨id, row.site⟩ row) index.settlements
      events := index.events.modify id fun e =>
        { e with status := .settled, settledAt := some settledAt } }
  | .claimSettlement id site claimTx claimedAt =>
    { index with settlements := index.settlements.modify ⟨id, site⟩ fun s =>
      { s with status := .claimed, claimTx := some claimTx, claimedAt := some claimedAt } }
  | .upsertAudit request => { index with audits := index.audits.insert request.key request }
  | .applyTxUpdates updates => updates.foldl applyTxUpdate index
  | .recordOrphan orphan => { index with orphans := index.orphans ++ [orphan] }

def rowsOf {α : Type} (table : Table SiteKey α) (id : EventId) : List α :=
  let start : SiteKey := ⟨id, ⟨""⟩⟩
  let onward := table.entries.dropWhile fun entry => compare entry.1 start = .lt
  (onward.takeWhile fun entry => entry.1.event = id).map (·.2)

def pendingAt (id : EventId) (slot : TxSlot) (record : TxRecord) : List PendingTx :=
  if record.isPending then [⟨⟨id, slot⟩, record⟩] else []

def pendingOfEvent (e : Event) : List PendingTx :=
  pendingAt e.id .create e.createTx ++
    (match e.closeTx with
      | some tx => pendingAt e.id .close tx
      | none => [])

def pendingOfProof (p : Proof) : List PendingTx :=
  pendingAt p.event (.submit p.site) p.submitTx

def pendingOfSettlement (s : Settlement) : List PendingTx :=
  pendingAt s.event (.settle s.site) s.settleTx ++
    (match s.claimTx with
      | some tx => pendingAt s.event (.claim s.site) tx
      | none => [])

def pending (index : Index) (scope : Scope) : List PendingTx :=
  (index.events.values.filter fun e => scope.contains e.id).flatMap pendingOfEvent ++
    (index.proofs.values.filter fun p => scope.contains p.event).flatMap pendingOfProof ++
    (index.settlements.values.filter fun s => scope.contains s.event).flatMap pendingOfSettlement

end Index

end Curtail
