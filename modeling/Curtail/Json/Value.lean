import Curtail.Json.Reader

/-!
Free-form JSON values, apart from how they are written: the members of an object are in key order
and have distinct keys, and a number is an integer of 64 bits or a binary64 number.
-/

namespace Curtail.Json

inductive Value
  | null
  | bool (b : Bool)
  | number (n : Number)
  | string (s : String)
  | array (items : List Value)
  | object (members : List (String × Value))

def place (key : String) (value : Value) : List (String × Value) → List (String × Value)
  | [] => [(key, value)]
  | (k, v) :: members =>
    match compare key k with
    | .lt => (key, value) :: (k, v) :: members
    | .eq => (key, value) :: members
    | .gt => (k, v) :: place key value members

/-- Of several members with one key the last stays. -/
def arrange (members : List (String × Value)) : List (String × Value) :=
  members.foldl (fun placed (key, value) => place key value placed) []

namespace Tree

def depthLimit : Nat := 127

mutual

def value? : Nat → Tree → Option Value
  | _, .null => some .null
  | _, .bool b => some (.bool b)
  | _, .number n => n.number?.map .number
  | _, .string s => s.map .string
  | 0, .array _ => none
  | depth + 1, .array items => (values? depth items).map .array
  | 0, .object _ => none
  | depth + 1, .object members => (memberValues? depth members).map fun ms => .object (arrange ms)

def values? (depth : Nat) : List Tree → Option (List Value)
  | [] => some []
  | item :: items => do
    let value ← item.value? depth
    let values ← values? depth items
    return value :: values

def memberValues? (depth : Nat) : List (Spelled × Tree) → Option (List (String × Value))
  | [] => some []
  | (key, item) :: members => do
    let key ← key
    let value ← item.value? depth
    let values ← memberValues? depth members
    return (key, value) :: values

end

end Tree

namespace Value

def ofText? (s : String) : Option Value :=
  (Tree.ofText? s).bind (·.value? Tree.depthLimit)

mutual

def tree : Value → Tree
  | .null => .null
  | .bool b => .bool b
  | .number n => .number (.ofNumber n)
  | .string s => .string (some s)
  | .array items => .array (trees items)
  | .object members => .object (memberTrees members)

def trees : List Value → List Tree
  | [] => []
  | value :: values => value.tree :: trees values

def memberTrees : List (String × Value) → List (Spelled × Tree)
  | [] => []
  | (key, value) :: members => (some key, value.tree) :: memberTrees members

end

def text (v : Value) : String := v.tree.compactText

def nat (n : Nat) : Value := .number (.integer n)

def int (n : Int) : Value := .number (.integer n)

def record (members : List (String × Value)) : Value :=
  .object (arrange members)

def kind : Value → String
  | .null => "null"
  | .bool _ => "boolean"
  | .number _ => "number"
  | .string _ => "string"
  | .array _ => "array"
  | .object _ => "object"

end Value

end Curtail.Json
