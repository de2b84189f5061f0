import Curtail.Engine.View

namespace Curtail.CommandLine

open Text

def lines (ls : List String) : String := String.join (ls.map (· ++ "\n"))

/-- A longer text ends in three points. -/
def shorten (width : Nat) (text : String) : String :=
  if text.length ≤ width then text
  else String.ofList (text.toList.take (width - 3)) ++ "..."

def rule (width : Nat) : String := String.ofList (List.replicate width '-')

def txCell (tx : TxRecord) : String :=
  shorten 18 tx.handle.text ++ " (" ++ tx.state.name ++ ")"

def txCell? (tx : Option TxRecord) : String :=
  match tx with
  | some tx => txCell tx
  | none => "-"

def ofUInt64 (n : UInt64) : String := toString n.toNat

def ofInt64 (n : Int64) : String := String.ofList (Json.Numeral.intText n.toInt)

def eventText (e : Event) : String :=
  lines (["event_id:     " ++ e.id.text,
    "status:       " ++ e.status.name,
    "window:       " ++ e.start.display ++ " .. " ++ e.stop.display,
    "target_kw:    " ++ ofUInt64 e.target,
    "reward_rate:  " ++ ofUInt64 e.rewardRate,
    "penalty_rate: " ++ ofUInt64 e.penaltyRate,
    "create_tx:    " ++ txCell e.createTx] ++
    e.closeTx.toList.map ("close_tx:     " ++ txCell ·))

def proofText (p : Proof) : String :=
  lines ["event_id:      " ++ p.event.text,
    "site_id:       " ++ p.site.text,
    "baseline_kwh:  " ++ ofUInt64 p.baseline,
    "actual_kwh:    " ++ ofUInt64 p.actual,
    "reduction_kwh: " ++ ofUInt64 p.reduction,
    "method:        " ++ p.method.text,
    "uri:           " ++ p.uri,
    "proof_hash:    " ++ p.hash.text,
    "submitter:     " ++ p.submitter.text,
    "submit_tx:     " ++ txCell p.submitTx]

def settlementRow (site payout status settleTx claimTx : String) : String :=
  " ".intercalate
    [padEnd 16 site, padStart 12 ' ' payout, padEnd 8 status, padEnd 32 settleTx, claimTx]

def settlementsText (rows : List Settlement) : String :=
  lines (settlementRow "SITE" "PAYOUT" "STATUS" "SETTLE_TX" "CLAIM_TX" :: rule 100 ::
    rows.map fun row =>
      settlementRow (shorten 16 row.site.text) (ofInt64 row.payout) row.status.name
        (txCell row.settleTx) (txCell? row.claimTx))

def auditText (r : AuditReport) : String :=
  lines ["event_id:   " ++ r.event.text,
    "site_id:    " ++ r.site.text,
    "stored:     " ++ r.storedHash.text,
    "recomputed: " ++ r.recomputedHash.text,
    "matches:    " ++ (if r.holds then "true" else "false"),
    "raw_uri:    " ++ r.uri]

def progressText (p : Progress) : String :=
  lines ["event_id:    " ++ p.event.text ++ " (" ++ p.status.name ++ ")",
    "progress:    " ++ toString p.completed ++ "/" ++ toString p.total ++ " (" ++
      toString p.percent ++ "%) step=" ++ p.step.name,
    "blocking:    " ++ p.blocking,
    "hint:        " ++ p.hint,
    "proofs:      " ++ toString p.proofsSubmitted ++ "/" ++ toString p.proofsRequired ++ " (" ++
      ofUInt64 p.totalReduction ++ " kWh)",
    "payout:      " ++ ofInt64 p.totalPayout,
    "tx:          " ++ toString p.pipeline.total ++ " total, " ++ toString p.pipeline.submitted ++
      " submitted, " ++ toString p.pipeline.confirmed ++ " confirmed, " ++
      toString p.pipeline.failed ++ " failed"]

def reconcileText (r : ReconcileReport) : String :=
  lines ["pending=" ++ toString r.pending ++ " checks=" ++ toString r.checks ++ " updated=" ++
    toString r.updated]

def orphanRow (action event site tx reason : String) : String :=
  " ".intercalate [padEnd 14 action, padEnd 16 event, padEnd 12 site, padEnd 32 tx, reason]

def orphansText (rows : List Orphan) : String :=
  lines (orphanRow "ACTION" "EVENT" "SITE" "TX" "REASON" :: rule 100 ::
    rows.map fun o =>
      orphanRow o.action.name (shorten 16 o.event.text)
        (match o.site with
          | some site => site.text
          | none => "-")
        (txCell o.tx) o.reason)

def journalRow (seq name scope : String) : String :=
  " ".intercalate [padStart 8 ' ' seq, padEnd 18 name, scope]

def journalHeading : List String := [journalRow "SEQ" "OP" "EVENT", rule 60]

def scopeText : Change → String
  | .insertEvent event => event.id.text
  | .closeEvent event _ _ => event.text
  | .insertProof proof => proof.key.text
  | .settleEvent event _ _ => event.text
  | .claimSettlement event site _ _ => (SiteKey.mk event site).text
  | .upsertAudit request => request.key.text
  | .applyTxUpdates updates => toString updates.length ++ " update(s)"
  | .recordOrphan orphan => orphan.event.text

def commitRow (c : Commit) : String :=
  journalRow (ofUInt64 c.seq) c.change.name (scopeText c.change)

end Curtail.CommandLine
