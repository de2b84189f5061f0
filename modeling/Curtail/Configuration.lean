import Curtail.Ledger.Simulated

namespace Curtail

open Json

def firsts {α : Type} [DecidableEq α] (items : List α) : List α :=
  items.foldl (fun kept item => if item ∈ kept then kept else kept ++ [item]) []

inductive ConfigurationError
  | notADocument
  | invalidDocument (violation : Violation)
  | unknownMode (text : String)
  | invalid (violation : Violation)
  deriving DecidableEq, Repr

namespace ConfigurationError

def message : ConfigurationError → String
  | .notADocument => "invalid configuration: not a configuration document"
  | .invalidDocument v => "invalid configuration: validation failed: " ++ v.message
  | .unknownMode text =>
    "invalid configuration: confirm mode '" ++ text ++ "' is not one of: sync, hybrid"
  | .invalid v => "validation failed: " ++ v.message

end ConfigurationError

structure Configuration where
  focus : SiteId
  others : List SiteId
  mode : ConfirmMode
  deriving DecidableEq

namespace Configuration

def requiredSites (c : Configuration) : List SiteId := c.focus :: c.others

def standard : Configuration := ⟨⟨"site-a"⟩, [⟨"site-b"⟩], .hybrid⟩

def of? (sites : List SiteId) (mode : ConfirmMode) : Except Violation Configuration :=
  match firsts sites with
  | focus :: others => .ok ⟨focus, others, mode⟩
  | [] => .error (.outOfBounds "required_sites" "0")

/-- Blanks around a site and empty items do not count. -/
def parseSites (list : String) : Except Violation (List SiteId) :=
  let items := ((Text.pieces ',' list.toList).map Text.trim).filter (· ≠ [])
  items.mapM fun item => Identifier.parse .site (String.ofList item)

def parseMode (text : String) : Except ConfigurationError ConfirmMode :=
  let word := String.ofList (Text.lower (Text.trim text.toList))
  match ConfirmMode.ofName? word with
  | some mode => .ok mode
  | none => .error (.unknownMode word)

def ofSites (sites : List SiteId) (mode : ConfirmMode) : Except Violation Configuration := do
  let checked ← sites.mapM fun site => Identifier.parse .site site.text
  of? checked mode

def ofTree? (t : Tree) : Option (List SiteId × ConfirmMode) := do
  let ms ← Members.of? ["required_sites", "confirm_mode"] t
  return (← ms.required "required_sites", ← ms.defaulted "confirm_mode" .hybrid decode)

def ofText (text : String) : Except ConfigurationError Configuration :=
  match Tree.readFront? text.toList with
  | none => .error .notADocument
  | some (t, rest) =>
    match ofTree? t with
    | none => .error .notADocument
    | some (sites, mode) =>
      match ofSites sites mode with
      | .error v => .error (.invalidDocument v)
      | .ok c => if skipSpace rest = [] then .ok c else .error .notADocument

end Configuration

end Curtail
