import Curtail.CommandLine.Arguments
import Curtail.CommandLine.Output

namespace Curtail.CommandLine

open Journal Json

structure Files where
  read : String → Option Bytes
  canCreate : String → Bool

structure Outcome where
  code : Nat
  stdout : String
  stderr : String
  journal : Option (String × Bytes)

inductive CommandError
  | engine (failure : Failure)
  | store (error : StoreError)
  | configuration (error : ConfigurationError)
  | journal (error : JournalError)
  | io (reason : String)
  | json

def CommandError.message : CommandError → String
  | .engine failure => failure.message
  | .store error => "failed to open journal: " ++ error.message
  | .configuration error => "invalid configuration: " ++ error.message
  | .journal error => "journal error: " ++ error.message
  | .io reason => "I/O error: " ++ reason
  | .json => "invalid JSON: not a value"

def CommandError.report (json : Bool) : CommandError → String
  | .engine failure =>
    if json then lines [failure.envelope.indentedText]
    else
      let note := if failure.retryable then ["(retryable)"] else []
      lines (("Error [" ++ failure.code ++ "]: " ++ failure.message) :: note)
  | e => lines ["Error: " ++ e.message]

def readText (files : Files) (name : String) : Except CommandError String :=
  match files.read name with
  | none => .error (.io IoFailure.missing.message)
  | some bytes =>
    match bytes.toText? with
    | some text => .ok text
    | none => .error (.io "stream did not contain valid UTF-8")

def baseConfiguration (files : Files) : Option String → Except CommandError Configuration
  | none => .ok .standard
  | some name => do
    let text ← readText files name
    (Configuration.ofText text).mapError .configuration

def configuration (files : Files) (g : GlobalArguments) : Except CommandError Configuration := do
  let base ← baseConfiguration files g.config
  let listed ← match g.requiredSites with
    | none => pure base
    | some list =>
      (do Configuration.of? (← Configuration.parseSites list) base.mode).mapError
        fun violation => .configuration (.invalid violation)
  match g.confirmMode with
  | none => return listed
  | some text =>
    let mode ← (Configuration.parseMode text).mapError .configuration
    return { listed with mode }

structure Desk where
  clock : Instant
  store : JournaledIndex
  file : Bytes
  ledger : SimulatedLedger

def Desk.answer : (r : Request) → Desk → r.Reply × Desk
  | .now, d => (d.clock, d)
  | .commitLimit, d => (some JournaledIndex.maxChangeBytes, d)
  | .query q, d => (.ok (d.store.index.answer q), d)
  | .commit change, d =>
    let (result, store, file) := d.store.commit d.file .done change
    (result, { d with store, file })
  | .submit action payload mode, d =>
    let (result, ledger) := d.ledger.submit d.clock.wholeSecond action payload mode
    (.ok result, { d with ledger })
  | .check handle, d =>
    let (answer, ledger) := d.ledger.check d.clock.wholeSecond handle
    (.ok answer, { d with ledger })

/-- A file that cannot be made is as if it were missing. -/
def openStore (files : Files) (g : GlobalArguments) :
    Except (StoreError × Option Bytes) (JournaledIndex × Bytes) :=
  JournaledIndex.start ⟨g.sync, files.canCreate g.journal, true⟩ (files.read g.journal)

def perform {α : Type} (files : Files) (clock : Instant) (g : GlobalArguments)
    (operation : Configuration → Operation α) (tree : α → Tree) (human : α → String) : Outcome :=
  match configuration files g with
  | .error e => ⟨1, "", e.report g.json, none⟩
  | .ok c =>
    match openStore files g with
    | .error (e, left) => ⟨1, "", (CommandError.store e).report g.json, left.map (g.journal, ·)⟩
    | .ok (store, file) =>
      let (result, desk) := Program.run Desk.answer (operation c).run ⟨clock, store, file, .new 1⟩
      let journal := some (g.journal, desk.file)
      match result with
      | .ok x => ⟨0, if g.json then lines [(tree x).indentedText] else human x, "", journal⟩
      | .error failure => ⟨1, "", (CommandError.engine failure).report g.json, journal⟩

/-- Reads one commit more than it prints, so that an error after the last one is found. -/
def listCommits (files : Files) (g : GlobalArguments) (maxCommits : Option UInt64) : Outcome :=
  match readJournal .strict (commits decode) (files.read g.journal) with
  | .error e => ⟨1, "", (CommandError.journal e).report g.json, none⟩
  | .ok (transcript : Transcript Commit) =>
    let shown := match maxCommits with
      | none => transcript.items
      | some most => transcript.items.take most.toNat
    let heading := if g.json then [] else journalHeading
    let rows := shown.map fun c => if g.json then (encode c).compactText else commitRow c
    let stdout := lines (heading ++ rows)
    let reachedEnd := match maxCommits with
      | none => true
      | some most => decide (transcript.items.length ≤ most.toNat)
    match transcript.failure with
    | some e =>
      if reachedEnd then ⟨1, stdout, (CommandError.journal e).report g.json, none⟩
      else ⟨0, stdout, "", none⟩
    | none => ⟨0, stdout, "", none⟩

def runCommand (files : Files) (clock : Instant) (g : GlobalArguments) : Command → Outcome
  | .createEvent plan =>
    perform files clock g (fun c => .createEvent c plan) encode eventText
  | .closeEvent event => perform files clock g (fun c => .closeEvent c event) encode eventText
  | .submitProof submission none =>
    perform files clock g (fun c => .submitProof c submission) encode proofText
  | .submitProof submission (some text) =>
    match Value.ofText? text with
    | none => ⟨1, "", CommandError.json.report g.json, none⟩
    | some raw =>
      perform files clock g (fun c => .submitProof c { submission with raw := some raw }) encode
        proofText
  | .settle event sites =>
    perform files clock g (fun c => .settleEvent c event sites) encode settlementsText
  | .claim key actor =>
    perform files clock g (fun c => .claimReward c key actor) encode fun row =>
      settlementsText [row]
  | .event id => perform files clock g (fun _ => .getEvent id) encode eventText
  | .settlements event =>
    perform files clock g (fun _ => .listSettlements event) encode settlementsText
  | .proof key => perform files clock g (fun _ => .getProof key) encode proofText
  | .audit key => perform files clock g (fun _ => .getAudit key) AuditReport.tree auditText
  | .summary event =>
    perform files clock g (fun c => .getSummary c event) Progress.tree progressText
  | .reconcile event =>
    let scope := match event with
      | none => .all
      | some id => .event id
    perform files clock g (fun _ => .reconcile scope) ReconcileReport.tree reconcileText
  | .orphans => perform files clock g (fun _ => .listOrphans) encode orphansText
  | .journal maxCommits => listCommits files g maxCommits

def run (files : Files) (clock : Instant) (environment : List (String × String))
    (words : List String) : Except UsageError Outcome := do
  let (g, command) ← parse environment words
  return runCommand files clock g command

end Curtail.CommandLine
