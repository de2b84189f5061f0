import Curtail.Ledger.Transaction
import Curtail.Digest.ProofHash

namespace Curtail

open Json

inductive LedgerAction
  | createEvent
  | closeEvent
  | submitProof
  | settleEvent
  | claimReward
  deriving DecidableEq, Repr

namespace LedgerAction

def name : LedgerAction → String
  | .createEvent => "create_event"
  | .closeEvent => "close_event"
  | .submitProof => "submit_proof"
  | .settleEvent => "settle_event"
  | .claimReward => "claim_reward"

def ofName? : String → Option LedgerAction
  | "create_event" => some .createEvent
  | "close_event" => some .closeEvent
  | "submit_proof" => some .submitProof
  | "settle_event" => some .settleEvent
  | "claim_reward" => some .claimReward
  | _ => none

instance : Codec LedgerAction where
  encode a := .text a.name
  decode t := t.word?.bind ofName?

end LedgerAction

inductive ConfirmMode
  | sync
  | hybrid
  deriving DecidableEq, Repr

namespace ConfirmMode

def name : ConfirmMode → String
  | .sync => "sync"
  | .hybrid => "hybrid"

def ofName? : String → Option ConfirmMode
  | "sync" => some .sync
  | "hybrid" => some .hybrid
  | _ => none

instance : Codec ConfirmMode where
  encode m := .text m.name
  decode t := t.word?.bind ofName?

end ConfirmMode

inductive LedgerError
  | transport (reason : String)
  | malformed (reason : String)
  | rejected (reason : String)
  deriving DecidableEq, Repr

def LedgerError.message : LedgerError → String
  | .transport reason => "ledger transport failed: " ++ reason
  | .malformed reason => "ledger response malformed: " ++ reason
  | .rejected reason => "ledger rejected the action: " ++ reason

structure SimulatedLedger where
  checksUntilConfirm : UInt32
  sequence : UInt64
  unconfirmed : List (TxHandle × UInt32)

namespace SimulatedLedger

def new (checksUntilConfirm : UInt32) : SimulatedLedger :=
  ⟨checksUntilConfirm, 0, []⟩

def handleOf (action : LedgerAction) (payload : Value) (sequence : UInt64) (now : Instant) :
    TxHandle :=
  let input := Bytes.ofText action.name ++ Bytes.ofText payload.text ++
    Bytes.littleEndian 8 sequence.toNat ++ Bytes.littleEndian 8 (now.seconds % 0x10000000000000000).toNat
  ⟨"0x" ++ (Sha256.hash input).toHex⟩

def submit (ledger : SimulatedLedger) (now : Instant) (action : LedgerAction) (payload : Value)
    (mode : ConfirmMode) : TxResult × SimulatedLedger :=
  let handle := handleOf action payload ledger.sequence now
  let counted := { ledger with sequence := ledger.sequence + 1 }
  if mode = .sync || ledger.checksUntilConfirm = 0 then
    (⟨handle, some 0, .confirmed now, now⟩, counted)
  else
    (⟨handle, none, .submitted, now⟩,
      { counted with
        unconfirmed := (handle, 0) :: ledger.unconfirmed.filter fun (h, _) => h ≠ handle })

/-- A transaction that the ledger does not know is taken to be confirmed. -/
def check (ledger : SimulatedLedger) (now : Instant) (handle : TxHandle) :
    TxCheck × SimulatedLedger :=
  let others := ledger.unconfirmed.filter fun (h, _) => h ≠ handle
  match ledger.unconfirmed.lookup handle with
  | some seen =>
    if seen + 1 < ledger.checksUntilConfirm then
      (⟨none, .submitted⟩, { ledger with unconfirmed := (handle, seen + 1) :: others })
    else (⟨some 0, .confirmed now⟩, { ledger with unconfirmed := others })
  | none => (⟨some 0, .confirmed now⟩, ledger)

end SimulatedLedger

end Curtail
