import Curtail.Json.Codec

namespace Curtail

inductive IdentifierKind
  | event
  | site
  | actor
  | method
  | handle
  deriving DecidableEq, Repr

structure Identifier (kind : IdentifierKind) where
  text : String
  deriving DecidableEq, Repr

abbrev EventId := Identifier .event

abbrev SiteId := Identifier .site

abbrev ActorId := Identifier .actor

abbrev MethodTag := Identifier .method

abbrev TxHandle := Identifier .handle

inductive Violation
  | patternMismatch (field value : String)
  | outOfBounds (field value : String)
  deriving DecidableEq, Repr

def Violation.message : Violation → String
  | .patternMismatch field value => field ++ " ('" ++ value ++ "') is not allowed"
  | .outOfBounds field value => field ++ " (" ++ value ++ ") is out of bounds"

namespace IdentifierKind

def name : IdentifierKind → String
  | .event => "EventId"
  | .site => "SiteId"
  | .actor => "ActorId"
  | .method => "MethodTag"
  | .handle => "TxHandle"

def isFirst (kind : IdentifierKind) (c : Char) : Bool :=
  match kind with
  | .event | .site | .actor => c.isAlphanum
  | .method => c.isLower
  | .handle => c.isAlphanum || "_:.-".toList.contains c

def isLater (kind : IdentifierKind) (c : Char) : Bool :=
  match kind with
  | .event | .site | .handle => c.isAlphanum || "_.:-".toList.contains c
  | .actor => c.isAlphanum || "_.:@-".toList.contains c
  | .method => c.isLower || c.isDigit || "_-".toList.contains c

def maxLength : IdentifierKind → Nat
  | .event | .site | .actor => 128
  | .method => 32
  | .handle => 256

def admits (kind : IdentifierKind) : List Char → Bool
  | [] => false
  | c :: cs => kind.isFirst c && cs.all kind.isLater && cs.length < kind.maxLength

end IdentifierKind

namespace Identifier

variable {kind : IdentifierKind}

def parse (kind : IdentifierKind) (value : String) : Except Violation (Identifier kind) :=
  if kind.admits value.toList then .ok ⟨value⟩
  else .error (.patternMismatch kind.name value)

instance : Ord (Identifier kind) := ⟨compareOn Identifier.text⟩

instance : Std.TransOrd (Identifier kind) :=
  inferInstanceAs (Std.TransCmp (compareOn Identifier.text))

instance : Std.LawfulEqOrd (Identifier kind) where
  eq_of_compare {a b} h := by
    cases a; cases b
    exact congrArg _ (Std.LawfulEqOrd.eq_of_compare (α := String) h)

instance : Json.Codec (Identifier kind) where
  encode id := .text id.text
  decode t := (Json.decode t : Option String).map (⟨·⟩)

end Identifier

structure SiteKey where
  event : EventId
  site : SiteId
  deriving DecidableEq, Repr

namespace SiteKey

def text (key : SiteKey) : String := key.event.text ++ "/" ++ key.site.text

instance : Ord SiteKey := ⟨compareLex (compareOn SiteKey.event) (compareOn SiteKey.site)⟩

instance : Std.TransOrd SiteKey :=
  inferInstanceAs (Std.TransCmp (compareLex (compareOn SiteKey.event) (compareOn SiteKey.site)))

instance : Std.LawfulEqOrd SiteKey where
  eq_of_compare {a b} h := by
    have both : compare a.event b.event = .eq ∧ compare a.site b.site = .eq := by
      have h' : (compare a.event b.event).then (compare a.site b.site) = .eq := h
      exact Ordering.then_eq_eq.mp h'
    have event := Std.LawfulEqOrd.eq_of_compare both.1
    have site := Std.LawfulEqOrd.eq_of_compare both.2
    cases a; cases b
    simp_all

end SiteKey

end Curtail
