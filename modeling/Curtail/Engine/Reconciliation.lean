import Curtail.Engine.Operation

namespace Curtail

open Json

structure ReconcileReport where
  pending : Nat
  checks : Nat
  updated : Nat
  deriving DecidableEq, Repr

def ReconcileReport.tree (r : ReconcileReport) : Tree :=
  .record [("pending", .nat r.pending), ("checks", .nat r.checks), ("updated", .nat r.updated)]

namespace Reconciliation

/-- What a pass has found so far, with the last update first. -/
structure Pass where
  answers : List (TxHandle × Option TxCheck)
  failures : List (TxHandle × LedgerError)
  updates : List TxUpdate

namespace Pass

def start : Pass := ⟨[], [], []⟩

def answered (p : Pass) (handle : TxHandle) (answer : Except LedgerError TxCheck) : Pass :=
  match answer with
  | .ok check => { p with answers := (handle, some check) :: p.answers }
  | .error e =>
    { p with answers := (handle, none) :: p.answers, failures := p.failures ++ [(handle, e)] }

def settle (p : Pass) (item : PendingTx) : Pass :=
  match (p.answers.lookup item.record.handle).join with
  | none => p
  | some check =>
    match item.record.advanced check with
    | none => p
    | some record => { p with updates := ⟨item.target, record⟩ :: p.updates }

end Pass

def check : Pass → List PendingTx → Operation Pass
  | p, [] => return p
  | p, item :: items => do
    let handle := item.record.handle
    match p.answers.lookup handle with
    | some _ => check (p.settle item) items
    | none =>
      let answer ← Operation.tryCheck handle
      check ((p.answered handle answer).settle item) items

def finish (pending : Nat) (p : Pass) : Operation ReconcileReport :=
  let checks := p.answers.length
  match p.failures with
  | [] => return ⟨pending, checks, p.updates.length⟩
  | (handle, cause) :: _ => Operation.fail (.ledgerCheck handle p.failures.length checks cause)

end Reconciliation

/-- What was answered is committed even if other checks failed. -/
def Operation.reconcile (scope : Scope) : Operation ReconcileReport := do
  let items : List PendingTx ← query (.pending scope)
  let p ← Reconciliation.check .start items
  if p.updates ≠ [] then commit (.applyTxUpdates p.updates.reverse)
  Reconciliation.finish items.length p

end Curtail
