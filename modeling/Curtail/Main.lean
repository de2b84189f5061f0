import Curtail.CommandLine.Run
import Std.Time.DateTime.Timestamp

namespace Curtail.Terminal

open CommandLine

def fileBytes (name : String) : IO (Option Bytes) := do
  try
    let content ← IO.FS.readBinFile name
    return some content.data.toList
  catch _ => return none

def canOpen (name : String) : IO Bool := do
  try
    let _ ← IO.FS.Handle.mk name .read
    return true
  catch _ => return false

def folderOf (name : String) : String :=
  match (name.toList.reverse.dropWhile (· ≠ '/')).reverse with
  | [] => "."
  | folder => String.ofList folder

def environment : IO (List (String × String)) := do
  let found ← globalVariables.mapM fun (_, name) => do
    return (← IO.getEnv name).map (name, ·)
  return found.filterMap id

def now : IO Instant := do
  let t ← Std.Time.Timestamp.now
  return .ofSeconds t.toSecondsSinceUnixEpoch.val

def perform (g : GlobalArguments) (command : Command) : IO UInt32 := do
  let journal ← fileBytes g.journal
  let config ← match g.config with
    | some name => fileBytes name
    | none => pure none
  let creatable := (← canOpen (folderOf g.journal)) && !(← canOpen g.journal)
  let read (name : String) : Option Bytes :=
    if name = g.journal then journal else if some name = g.config then config else none
  let outcome := runCommand ⟨read, fun _ => creatable⟩ (← now) g command
  if let some (name, bytes) := outcome.journal then
    if some bytes ≠ journal then IO.FS.writeBinFile name ⟨bytes.toArray⟩
  (← IO.getStdout).putStr outcome.stdout
  (← IO.getStderr).putStr outcome.stderr
  return UInt32.ofNat outcome.code

end Curtail.Terminal

def main (words : List String) : IO UInt32 := do
  match Curtail.CommandLine.parse (← Curtail.Terminal.environment) words with
  | .error e =>
    (← IO.getStderr).putStrLn ("error: " ++ e.message)
    return 2
  | .ok (g, command) => Curtail.Terminal.perform g command
