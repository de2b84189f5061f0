import Curtail.Engine.View
import Curtail.Journal.Disk

/-!
A world to rehearse the engine in: a store, a simulated ledger, and faults that come between them and
the engine on demand. Main definition: `World.answer`, which answers a request of a program.
-/

namespace Curtail.Rehearsal

open Journal Json

structure CommitFault where
  name : Option String
  left : Option Nat
  error : StoreError

structure StoreFaults where
  commit : Option CommitFault
  read : Option (Option String)
  planted : Option Settlement
  limit : Option Nat

def StoreFaults.none : StoreFaults := ⟨.none, .none, .none, .none⟩

structure LedgerFaults where
  submits : List (Except LedgerError TxResult)
  checks : List (TxHandle × Except LedgerError TxCheck)
  allChecks : Option LedgerError
  race : List Change

def LedgerFaults.none : LedgerFaults := ⟨[], [], .none, []⟩

inductive LedgerCall
  | submit (action : LedgerAction) (payload : Value) (mode : ConfirmMode)
  | check (handle : TxHandle)

inductive Backing
  | memory (index : Index)
  | journal (store : Option JournaledIndex)

structure World where
  clock : Instant
  backing : Backing
  disk : Disk
  storeFaults : StoreFaults
  ledger : SimulatedLedger
  ledgerFaults : LedgerFaults
  calls : List LedgerCall
  handles : List TxHandle

def queryName : Query → String
  | .event _ => "get_event"
  | .events => "list_events"
  | .proof _ => "get_proof"
  | .proofs _ => "list_proofs"
  | .settlement _ => "get_settlement"
  | .settlements _ => "list_settlements"
  | .audit _ => "get_audit"
  | .pending _ => "pending_transactions"
  | .orphans => "list_orphans"

def covers (pattern : Option String) (name : String) : Bool :=
  match pattern with
  | none => true
  | some n => n = name

def withPlanted (planted : Option Settlement) : (q : Query) → q.Answer → q.Answer
  | .settlement key, (found : Option Settlement) =>
    found.or (planted.filter fun row => row.event = key.event && row.site = key.site)
  | .event _, found => found
  | .events, found => found
  | .proof _, found => found
  | .proofs _, found => found
  | .settlements _, found => found
  | .audit _, found => found
  | .pending _, found => found
  | .orphans, found => found

namespace World

def index (w : World) : Index :=
  match w.backing with
  | .memory index => index
  | .journal (some store) => store.index
  | .journal none => .empty

def isClosed (w : World) : Bool :=
  match w.backing with
  | .journal none => true
  | _ => false

def reopen (w : World) (options : WriteOptions) : Except StoreError UInt64 × World :=
  let disk := w.disk.closed
  match JournaledIndex.start options disk.named with
  | .error (e, left) => (.error e, { w with backing := .journal none, disk := { disk with named := left } })
  | .ok (store, bytes) =>
    (.ok store.seq, { w with backing := .journal (some store), disk := disk.replaced bytes })

def commitDirect (w : World) (change : Change) : Except StoreError Unit × World :=
  match w.backing with
  | .memory index =>
    let (result, index) := index.commit change
    (result, { w with backing := .memory index })
  | .journal (some store) =>
    let (result, store, bytes) := store.commit w.disk.opened .done change
    (result, { w with backing := .journal (some store), disk := w.disk.written bytes })
  | .journal none => (.error .poisoned, w)

def commit (w : World) (change : Change) : Except StoreError Unit × World :=
  match w.storeFaults.commit with
  | none => w.commitDirect change
  | some fault =>
    if !covers fault.name change.name then w.commitDirect change
    else match fault.left with
      | none => (.error fault.error, w)
      | some 0 => w.commitDirect change
      | some (left + 1) =>
        (.error fault.error,
          { w with storeFaults := { w.storeFaults with commit := some { fault with left } } })

def query (w : World) (q : Query) : Except StoreError q.Answer :=
  let refused := match w.storeFaults.read with
    | none => false
    | some pattern => covers pattern (queryName q)
  if refused then .error .poisoned else .ok (withPlanted w.storeFaults.planted q (w.index.answer q))

def commitLimit (w : World) : Option Nat :=
  match w.storeFaults.limit with
  | some limit => some limit
  | none =>
    match w.backing with
    | .memory _ => none
    | .journal _ => some JournaledIndex.maxChangeBytes

def runRace (w : World) : World :=
  let raced := w.ledgerFaults.race.foldl (fun w change => (w.commitDirect change).2) w
  { raced with ledgerFaults := { raced.ledgerFaults with race := [] } }

def accepted (w : World) (result : Except LedgerError TxResult) : World :=
  match result with
  | .ok r => { w with handles := w.handles ++ [r.handle] }
  | .error _ => w

def submit (w : World) (action : LedgerAction) (payload : Value) (mode : ConfirmMode) :
    Except LedgerError TxResult × World :=
  let w := { w with calls := w.calls ++ [LedgerCall.submit action payload mode] }
  let w := w.runRace
  match w.ledgerFaults.submits with
  | result :: submits =>
    (result, { w with ledgerFaults := { w.ledgerFaults with submits } }.accepted result)
  | [] =>
    let (result, ledger) := w.ledger.submit w.clock.wholeSecond action payload mode
    (.ok result, { w with ledger }.accepted (.ok result))

def check (w : World) (handle : TxHandle) : Except LedgerError TxCheck × World :=
  let w := { w with calls := w.calls ++ [LedgerCall.check handle] }
  match w.ledgerFaults.allChecks with
  | some e => (.error e, w)
  | none =>
    match w.ledgerFaults.checks.lookup handle with
    | some answer => (answer, w)
    | none =>
      let (answer, ledger) := w.ledger.check w.clock.wholeSecond handle
      (.ok answer, { w with ledger })

def answer : (r : Request) → World → r.Reply × World
  | .now, w => (w.clock, w)
  | .commitLimit, w => (w.commitLimit, w)
  | .query q, w => (w.query q, w)
  | .commit change, w => w.commit change
  | .submit action payload mode, w => w.submit action payload mode
  | .check handle, w => w.check handle

def perform {α : Type} (w : World) (operation : Operation α) : Except Failure α × World :=
  Program.run answer operation.run w

end World

end Curtail.Rehearsal
