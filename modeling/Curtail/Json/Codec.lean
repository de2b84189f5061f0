import Curtail.Json.Value

namespace Curtail.Json

class Codec (α : Type) where
  encode : α → Tree
  decode : Tree → Option α

export Codec (encode decode)

namespace Codec

instance : Codec String where
  encode s := .string (some s)
  decode
    | .string s => s
    | _ => none

instance : Codec Bool where
  encode b := .bool b
  decode
    | .bool b => some b
    | _ => none

def decodeNat (bound : Nat) : Tree → Option Nat
  | .number n => n.nat?.bind fun i => if i < bound then some i else none
  | _ => none

instance : Codec UInt8 where
  encode n := .nat n.toNat
  decode t := (decodeNat UInt8.size t).map UInt8.ofNat

instance : Codec UInt32 where
  encode n := .nat n.toNat
  decode t := (decodeNat UInt32.size t).map UInt32.ofNat

instance : Codec UInt64 where
  encode n := .nat n.toNat
  decode t := (decodeNat UInt64.size t).map UInt64.ofNat

instance (n : Nat) : Codec (Fin n) where
  encode i := .nat i.val
  decode
    | .number numeral => numeral.nat?.bind fun i => if h : i < n then some ⟨i, h⟩ else none
    | _ => none

instance : Codec Int64 where
  encode n := .int n.toInt
  decode
    | .number n =>
      n.int?.bind fun i =>
        if -0x8000000000000000 ≤ i ∧ i < 0x8000000000000000 then some (Int64.ofInt i) else none
    | _ => none

def decodeAll {α : Type} (item : Tree → Option α) : List Tree → Option (List α)
  | [] => some []
  | t :: ts =>
    match item t, decodeAll item ts with
    | some x, some xs => some (x :: xs)
    | _, _ => none

instance {α : Type} [Codec α] : Codec (List α) where
  encode xs := .array (xs.map encode)
  decode
    | .array items => decodeAll decode items
    | _ => none

instance {α : Type} [Codec α] : Codec (Option α) where
  encode
    | none => .null
    | some x => encode x
  decode
    | .null => some none
    | t => (decode t).map some

end Codec

structure Members where
  entries : List (String × Tree)
  positional : Bool

namespace Members

/-- Fails if a name cannot be read or a known one comes twice. -/
def keep (fields : List String) : List (Spelled × Tree) → Option (List (String × Tree))
  | [] => some []
  | (none, _) :: _ => none
  | (some name, value) :: rest =>
    match keep fields rest with
    | none => none
    | some kept =>
      if !fields.contains name then some kept
      else if kept.any (·.1 = name) then none
      else some ((name, value) :: kept)

def of? (fields : List String) : Tree → Option Members
  | .object members => (keep fields members).map (⟨·, false⟩)
  | .array items => if items.length ≤ fields.length then some ⟨fields.zip items, true⟩ else none
  | _ => none

def find? (ms : Members) (name : String) : Option Tree :=
  ms.entries.lookup name

def required {α : Type} [Codec α] (ms : Members) (name : String) : Option α :=
  (ms.find? name).bind decode

def defaulted {α : Type} (ms : Members) (name : String) (absent : α) (read : Tree → Option α) :
    Option α :=
  match ms.find? name with
  | none => some absent
  | some t => read t

def optional {α : Type} [Codec α] (ms : Members) (name : String) : Option (Option α) :=
  match ms.find? name with
  | none => if ms.positional then none else some none
  | some t => decode t

end Members

namespace Tree

def field {α : Type} [Codec α] (name : String) (x : α) : List (String × Tree) :=
  [(name, encode x)]

def optionalField {α : Type} [Codec α] (name : String) : Option α → List (String × Tree)
  | none => []
  | some x => [(name, encode x)]

def choice? : Tree → Option (String × Tree)
  | .string (some name) => some (name, .null)
  | .object [(some name, content)] => some (name, content)
  | _ => none

def word? (t : Tree) : Option String :=
  match t.choice? with
  | some (name, .null) => some name
  | _ => none

end Tree

end Curtail.Json
