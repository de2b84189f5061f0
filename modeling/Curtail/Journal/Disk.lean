import Curtail.Journal.Writer

namespace Curtail.Journal

/-- The bytes under the file's name, and those of a file still open though its name is gone. -/
structure Disk where
  named : Option Bytes
  held : Option Bytes
  deriving DecidableEq, Repr

namespace Disk

def blank : Disk := ⟨none, none⟩

def opened (d : Disk) : Bytes := (d.held.or d.named).getD []

def written (d : Disk) (bytes : Bytes) : Disk :=
  match d.held with
  | some _ => { d with held := some bytes }
  | none => { d with named := some bytes }

def closed (d : Disk) : Disk := { d with held := none }

def replaced (d : Disk) (bytes : Bytes) : Disk := { d with named := some bytes }

def removed (d : Disk) (isOpen : Bool) : Disk :=
  ⟨none, if isOpen then d.held.or d.named else none⟩

end Disk

end Curtail.Journal
