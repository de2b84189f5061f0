import Curtail.Text.Blank
import Curtail.Text.Hex

namespace Curtail.Rehearsal

structure Folder where
  files : List (String × Bytes)

namespace Folder

def longestName : Nat := 255

def file? (path : String) : Option String :=
  let parts := Text.pieces '/' path.toList
  let steps := parts.filter fun part => part ≠ [] && part ≠ ['.']
  let name := parts.getLast?.getD []
  if path.startsWith "/" || steps.getLast? ≠ some name || name = ['.', '.'] then none
  else if longestName < (String.ofList name).utf8ByteSize then none
  else if steps.dropLast.all (· = ['.', '.']) then some (String.ofList (['/'].intercalate steps))
  else none

def read (f : Folder) (path : String) : Option Bytes :=
  (file? path).bind fun name => f.files.lookup name

def remove (f : Folder) (path : String) : Folder :=
  ⟨f.files.filter fun entry => some entry.1 ≠ file? path⟩

def write (f : Folder) (path : String) (bytes : Bytes) : Folder :=
  match file? path with
  | some name => ⟨(name, bytes) :: (f.remove path).files⟩
  | none => f

end Folder

end Curtail.Rehearsal
