import Curtail.Entity.Event
import Curtail.Entity.Proof

namespace Curtail.CommandLine

inductive UsageError
  | unknownCommand
  | unknownOption (text : String)
  | missingValue (option : String)
  | unexpectedValue (option : String)
  | repeated (option : String)
  | missingArgument (name : String)
  | extraArgument (text : String)
  | invalidValue (name value : String)
  deriving DecidableEq, Repr

def UsageError.message : UsageError → String
  | .unknownCommand => "no such command"
  | .unknownOption text => "no such option: " ++ text
  | .missingValue option => "a value is missing for " ++ option
  | .unexpectedValue option => "no value goes with " ++ option
  | .repeated option => option ++ " is given more than once"
  | .missingArgument name => name ++ " is missing"
  | .extraArgument text => "unexpected argument: " ++ text
  | .invalidValue name value => "invalid value for " ++ name ++ ": " ++ value

structure GlobalArguments where
  journal : String
  config : Option String
  confirmMode : Option String
  requiredSites : Option String
  sync : Bool
  json : Bool
  deriving DecidableEq, Repr

inductive Command
  | createEvent (plan : EventPlan)
  | closeEvent (event : EventId)
  | submitProof (submission : Submission) (rawPayload : Option String)
  | settle (event : EventId) (sites : List SiteId)
  | claim (key : SiteKey) (actor : ActorId)
  | event (id : EventId)
  | settlements (event : EventId)
  | proof (key : SiteKey)
  | audit (key : SiteKey)
  | summary (event : EventId)
  | reconcile (event : Option EventId)
  | orphans
  | journal (maxCommits : Option UInt64)

structure Options where
  single : List String
  multiple : List String
  flags : List String

def globalOptions : Options :=
  ⟨["journal", "config", "confirm-mode", "required-sites"], [], ["sync", "json"]⟩

def Options.and (a b : Options) : Options :=
  ⟨a.single ++ b.single, a.multiple ++ b.multiple, a.flags ++ b.flags⟩

structure Found where
  options : List (String × Option String)
  operands : List String

namespace Found

def has (f : Found) (name : String) : Bool := f.options.any (·.1 = name)

def value? (f : Found) (name : String) : Option String := (f.options.lookup name).join

def valuesOf (f : Found) (name : String) : List String :=
  f.options.filterMap fun (n, value) => if n = name then value else none

end Found

def splitOption (text : List Char) : String × Option String :=
  let name := text.takeWhile (· ≠ '=')
  match text.drop name.length with
  | [] => (String.ofList name, none)
  | _ :: value => (String.ofList name, some (String.ofList value))

def isValue (word : String) : Bool :=
  match word.toList with
  | '-' :: _ :: _ => false
  | _ => true

def Found.add (known : Options) (f : Found) (name : String) (value : Option String) :
    Except UsageError Found :=
  if f.has name && !known.multiple.contains name then .error (.repeated name)
  else .ok { f with options := f.options ++ [(name, value)] }

/-- Reads words until they end, or up to the first operand if `stopAtOperand`. -/
def collect (known : Options) (stopAtOperand : Bool) (f : Found) :
    List String → Except UsageError (Found × List String)
  | [] => .ok (f, [])
  | word :: words =>
    match word.toList with
    | ['-', '-'] =>
      if stopAtOperand then .error .unknownCommand
      else .ok ({ f with operands := f.operands ++ words }, [])
    | '-' :: '-' :: text =>
      let (name, value) := splitOption text
      if known.flags.contains name then
        match value with
        | some _ => .error (.unexpectedValue name)
        | none =>
          match f.add known name none with
          | .error e => .error e
          | .ok f => collect known stopAtOperand f words
      else if known.single.contains name || known.multiple.contains name then
        match value, words with
        | some v, words =>
          match f.add known name (some v) with
          | .error e => .error e
          | .ok f => collect known stopAtOperand f words
        | none, next :: words =>
          if !isValue next then .error (.missingValue name)
          else match f.add known name (some next) with
            | .error e => .error e
            | .ok f => collect known stopAtOperand f words
        | none, [] => .error (.missingValue name)
      else .error (.unknownOption word)
    | '-' :: _ :: _ => .error (.unknownOption word)
    | _ =>
      if stopAtOperand then .ok (f, word :: words)
      else collect known stopAtOperand { f with operands := f.operands ++ [word] } words

def globalVariables : List (String × String) :=
  [("journal", "FLEXSETTLE_JOURNAL"), ("config", "FLEXSETTLE_CONFIG"),
    ("confirm-mode", "FLEXSETTLE_CONFIRM_MODE"), ("required-sites", "FLEXSETTLE_REQUIRED_SITES")]

def defaultJournal : String := "flexsettle.fsj"

/-- The command's own value goes before one in front of it, and both before the environment. -/
def globalValue (environment : List (String × String)) (before after : Found) (name : String) :
    Option String :=
  (after.value? name).or <| (before.value? name).or <|
    (globalVariables.lookup name).bind (List.lookup · environment)

def checkPath (environment : List (String × String)) (before after : Found) (name : String) :
    Except UsageError Unit :=
  let fromEnvironment :=
    if before.has name && after.has name then none
    else (globalVariables.lookup name).bind (List.lookup · environment)
  if [before.value? name, after.value? name, fromEnvironment].contains (some "") then
    .error (.invalidValue name "")
  else .ok ()

def globalArguments (environment : List (String × String)) (before after : Found) :
    Except UsageError GlobalArguments := do
  checkPath environment before after "journal"
  checkPath environment before after "config"
  let value := globalValue environment before after
  return {
    journal := (value "journal").getD defaultJournal
    config := value "config"
    confirmMode := value "confirm-mode"
    requiredSites := value "required-sites"
    sync := before.has "sync" || after.has "sync"
    json := before.has "json" || after.has "json" }

def ownOptions : String → Option Options
  | "create-event" =>
    some ⟨["event-id", "start", "end", "target-kw", "reward-rate", "penalty-rate"], [], []⟩
  | "close-event" => some ⟨[], [], []⟩
  | "submit-proof" =>
    some ⟨["event-id", "site-id", "baseline-kwh", "actual-kwh", "method", "uri", "raw-payload",
      "proof-hash", "actor"], [], []⟩
  | "settle" => some ⟨[], ["site"], []⟩
  | "claim" => some ⟨["actor"], [], []⟩
  | "event" => some ⟨[], [], []⟩
  | "settlements" => some ⟨[], [], []⟩
  | "proof" => some ⟨[], [], []⟩
  | "audit" => some ⟨[], [], []⟩
  | "summary" => some ⟨[], [], []⟩
  | "reconcile" => some ⟨[], [], []⟩
  | "orphans" => some ⟨[], [], []⟩
  | "journal" => some ⟨["max-commits"], [], []⟩
  | _ => none

def needText (f : Found) (name : String) : Except UsageError String :=
  match f.value? name with
  | some v => .ok v
  | none => .error (.missingArgument name)

def number? (text : String) : Option UInt64 :=
  let digits := match text.toList with
    | '+' :: cs => cs
    | cs => cs
  if digits = [] || !digits.all (fun c => '0' ≤ c && c ≤ '9') then none
  else
    let n := digits.foldl (fun n c => n * 10 + (c.toNat - 48)) 0
    if n < 0x10000000000000000 then some (UInt64.ofNat n) else none

def numberOf (name text : String) : Except UsageError UInt64 :=
  match number? text with
  | some n => .ok n
  | none => .error (.invalidValue name text)

def needNumber (f : Found) (name : String) : Except UsageError UInt64 := do
  numberOf name (← needText f name)

def needInstant (f : Found) (name : String) : Except UsageError Instant := do
  let text ← needText f name
  match Instant.ofText? text with
  | some t => .ok t
  | none => .error (.invalidValue name text)

def noOperand (f : Found) : Except UsageError Unit :=
  match f.operands with
  | [] => .ok ()
  | word :: _ => .error (.extraArgument word)

def oneOperand (f : Found) : Except UsageError EventId :=
  match f.operands with
  | [] => .error (.missingArgument "EVENT_ID")
  | [event] => .ok ⟨event⟩
  | _ :: word :: _ => .error (.extraArgument word)

def twoOperands (f : Found) : Except UsageError SiteKey :=
  match f.operands with
  | [] => .error (.missingArgument "EVENT_ID")
  | [_] => .error (.missingArgument "SITE_ID")
  | [event, site] => .ok ⟨⟨event⟩, ⟨site⟩⟩
  | _ :: _ :: word :: _ => .error (.extraArgument word)

def commandOf (name : String) (f : Found) : Except UsageError Command := do
  match name with
  | "create-event" =>
    noOperand f
    return .createEvent {
      id := ⟨← needText f "event-id"⟩
      start := ← needInstant f "start"
      stop := ← needInstant f "end"
      target := ← needNumber f "target-kw"
      rewardRate := ← needNumber f "reward-rate"
      penaltyRate := ← needNumber f "penalty-rate" }
  | "close-event" => return .closeEvent (← oneOperand f)
  | "submit-proof" =>
    noOperand f
    let submission : Submission := {
      event := ⟨← needText f "event-id"⟩
      site := ⟨← needText f "site-id"⟩
      baseline := ← needNumber f "baseline-kwh"
      actual := ← needNumber f "actual-kwh"
      method := ⟨(f.value? "method").getD "simple"⟩
      uri := ← needText f "uri"
      raw := none
      declaredHash := f.value? "proof-hash"
      submitter := ⟨← needText f "actor"⟩ }
    return .submitProof submission (f.value? "raw-payload")
  | "settle" => return .settle (← oneOperand f) ((f.valuesOf "site").map (⟨·⟩))
  | "claim" => return .claim (← twoOperands f) ⟨← needText f "actor"⟩
  | "event" => return .event (← oneOperand f)
  | "settlements" => return .settlements (← oneOperand f)
  | "proof" => return .proof (← twoOperands f)
  | "audit" => return .audit (← twoOperands f)
  | "summary" => return .summary (← oneOperand f)
  | "reconcile" =>
    if f.operands = [] then return .reconcile none else return .reconcile (some (← oneOperand f))
  | "orphans" =>
    noOperand f
    return .orphans
  | "journal" =>
    noOperand f
    match f.value? "max-commits" with
    | none => return .journal none
    | some text => return .journal (some (← numberOf "max-commits" text))
  | _ => .error .unknownCommand

def parse (environment : List (String × String)) (words : List String) :
    Except UsageError (GlobalArguments × Command) := do
  let (before, rest) ← collect globalOptions true ⟨[], []⟩ words
  match rest with
  | [] => .error .unknownCommand
  | name :: words =>
    match ownOptions name with
    | none => .error .unknownCommand
    | some own =>
      let (after, _) ← collect (globalOptions.and own) false ⟨[], []⟩ words
      let global ← globalArguments environment before after
      let command ← commandOf name after
      return (global, command)

end Curtail.CommandLine
