import Curtail.Ledger.Transaction

namespace Curtail

open Json

inductive EventStatus
  | active
  | closed
  | settled
  deriving DecidableEq, Repr

namespace EventStatus

def name : EventStatus → String
  | .active => "active"
  | .closed => "closed"
  | .settled => "settled"

def ofName? : String → Option EventStatus
  | "active" => some .active
  | "closed" => some .closed
  | "settled" => some .settled
  | _ => none

instance : Codec EventStatus where
  encode s := .text s.name
  decode t := t.word?.bind ofName?

end EventStatus

structure Event where
  id : EventId
  start : Instant
  stop : Instant
  target : UInt64
  rewardRate : UInt64
  penaltyRate : UInt64
  status : EventStatus
  createTx : TxRecord
  closeTx : Option TxRecord
  createdAt : Instant
  closedAt : Option Instant
  settledAt : Option Instant
  deriving DecidableEq

instance : Codec Event where
  encode e := .record (Tree.field "event_id" e.id ++ Tree.field "start_time" e.start ++
    Tree.field "end_time" e.stop ++ Tree.field "target_kw" e.target ++
    Tree.field "reward_rate" e.rewardRate ++ Tree.field "penalty_rate" e.penaltyRate ++
    Tree.field "status" e.status ++ Tree.field "create_tx" e.createTx ++
    Tree.optionalField "close_tx" e.closeTx ++ Tree.field "created_at" e.createdAt ++
    Tree.optionalField "closed_at" e.closedAt ++ Tree.optionalField "settled_at" e.settledAt)
  decode t := do
    let ms ← Members.of? ["event_id", "start_time", "end_time", "target_kw", "reward_rate",
      "penalty_rate", "status", "create_tx", "close_tx", "created_at", "closed_at", "settled_at"] t
    return {
      id := ← ms.required "event_id"
      start := ← ms.required "start_time"
      stop := ← ms.required "end_time"
      target := ← ms.required "target_kw"
      rewardRate := ← ms.required "reward_rate"
      penaltyRate := ← ms.required "penalty_rate"
      status := ← ms.required "status"
      createTx := ← ms.required "create_tx"
      closeTx := ← ms.optional "close_tx"
      createdAt := ← ms.required "created_at"
      closedAt := ← ms.optional "closed_at"
      settledAt := ← ms.optional "settled_at" }

structure EventPlan where
  id : EventId
  start : Instant
  stop : Instant
  target : UInt64
  rewardRate : UInt64
  penaltyRate : UInt64
  deriving DecidableEq

namespace EventPlan

instance : Codec EventPlan where
  encode p := .record (Tree.field "event_id" p.id ++ Tree.field "start_time" p.start ++
    Tree.field "end_time" p.stop ++ Tree.field "target_kw" p.target ++
    Tree.field "reward_rate" p.rewardRate ++ Tree.field "penalty_rate" p.penaltyRate)
  decode t := do
    let ms ← Members.of? ["event_id", "start_time", "end_time", "target_kw", "reward_rate",
      "penalty_rate"] t
    return {
      id := ← ms.required "event_id"
      start := ← ms.required "start_time"
      stop := ← ms.required "end_time"
      target := ← ms.required "target_kw"
      rewardRate := ← ms.required "reward_rate"
      penaltyRate := ← ms.required "penalty_rate" }

def announcement (p : EventPlan) : Value :=
  .record [("event_id", .string p.id.text), ("start_time", .string p.start.text),
    ("end_time", .string p.stop.text), ("target_kw", .nat p.target.toNat),
    ("reward_rate", .nat p.rewardRate.toNat), ("penalty_rate", .nat p.penaltyRate.toNat)]

end EventPlan

end Curtail
