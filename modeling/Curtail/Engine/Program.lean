import Curtail.Index.Store
import Curtail.Ledger.Simulated

/-!
Programs over a store, a ledger and a clock. A program asks one thing at a time and goes on from the
reply, so that whatever runs it decides what happens between two requests.
-/

namespace Curtail

/-- One step that a program cannot make by itself. -/
inductive Request
  | now
  | commitLimit
  | query (q : Query)
  | commit (change : Change)
  | submit (action : LedgerAction) (payload : Json.Value) (mode : ConfirmMode)
  | check (handle : TxHandle)

def Request.Reply : Request → Type
  | .now => Instant
  | .commitLimit => Option Nat
  | .query q => Except StoreError q.Answer
  | .commit _ => Except StoreError Unit
  | .submit .. => Except LedgerError TxResult
  | .check _ => Except LedgerError TxCheck

inductive Program (α : Type)
  | done (result : α)
  | ask (request : Request) (next : request.Reply → Program α)

namespace Program

variable {α β σ : Type}

def andThen : Program α → (α → Program β) → Program β
  | .done a, f => f a
  | .ask request next, f => .ask request fun reply => andThen (next reply) f

instance : Monad Program where
  pure := .done
  bind := andThen

def request (r : Request) : Program r.Reply := .ask r .done

def run (answer : (r : Request) → σ → r.Reply × σ) : Program α → σ → α × σ
  | .done a, s => (a, s)
  | .ask r next, s =>
    let (reply, s) := answer r s
    run answer (next reply) s

end Program

end Curtail
