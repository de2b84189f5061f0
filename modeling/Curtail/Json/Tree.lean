import Curtail.Json.Numeral
import Curtail.Text.Hex

namespace Curtail.Json

/-- Nothing, if an escape names half of a surrogate pair. -/
abbrev Spelled := Option String

inductive Tree
  | null
  | bool (b : Bool)
  | number (n : Numeral)
  | string (text : Spelled)
  | array (items : List Tree)
  | object (members : List (Spelled × Tree))

namespace Tree

def text (s : String) : Tree := .string (some s)

def nat (n : Nat) : Tree := .number (.ofNat n)

def int (n : Int) : Tree := .number (.ofInt n)

def record (members : List (String × Tree)) : Tree :=
  .object (members.map fun (name, value) => (some name, value))

def escape (c : Char) : List Char :=
  match c with
  | '"' => ['\\', '"']
  | '\\' => ['\\', '\\']
  | '\x08' => ['\\', 'b']
  | '\x0c' => ['\\', 'f']
  | '\n' => ['\\', 'n']
  | '\r' => ['\\', 'r']
  | '\t' => ['\\', 't']
  | c => if c.toNat < 0x20 then '\\' :: 'u' :: Text.hexFour c.toNat else [c]

def quote (s : Spelled) : List Char :=
  '"' :: ((s.getD "").toList.flatMap escape ++ ['"'])

def numberForm : Numeral.ExponentForm := ⟨'e', true⟩

mutual

def compact : Tree → List Char
  | .null => ['n', 'u', 'l', 'l']
  | .bool true => ['t', 'r', 'u', 'e']
  | .bool false => ['f', 'a', 'l', 's', 'e']
  | .number n => n.text numberForm
  | .string s => quote s
  | .array [] => ['[', ']']
  | .array (item :: items) => '[' :: (item.compact ++ compactItems items)
  | .object [] => ['{', '}']
  | .object ((key, value) :: members) =>
    '{' :: (quote key ++ ':' :: (value.compact ++ compactMembers members))

def compactItems : List Tree → List Char
  | [] => [']']
  | item :: items => ',' :: (item.compact ++ compactItems items)

def compactMembers : List (Spelled × Tree) → List Char
  | [] => ['}']
  | (key, value) :: members => ',' :: (quote key ++ ':' :: (value.compact ++ compactMembers members))

end

def newline (depth : Nat) : List Char :=
  '\n' :: List.replicate (2 * depth) ' '

mutual

def indented (depth : Nat) : Tree → List Char
  | .null => ['n', 'u', 'l', 'l']
  | .bool true => ['t', 'r', 'u', 'e']
  | .bool false => ['f', 'a', 'l', 's', 'e']
  | .number n => n.text numberForm
  | .string s => quote s
  | .array [] => ['[', ']']
  | .array (item :: items) =>
    '[' :: (newline (depth + 1) ++ item.indented (depth + 1) ++ indentedItems depth items)
  | .object [] => ['{', '}']
  | .object ((key, value) :: members) =>
    '{' :: (newline (depth + 1) ++ quote key ++ ':' :: ' ' :: value.indented (depth + 1) ++
      indentedMembers depth members)

def indentedItems (depth : Nat) : List Tree → List Char
  | [] => newline depth ++ [']']
  | item :: items =>
    ',' :: (newline (depth + 1) ++ item.indented (depth + 1) ++ indentedItems depth items)

def indentedMembers (depth : Nat) : List (Spelled × Tree) → List Char
  | [] => newline depth ++ ['}']
  | (key, value) :: members =>
    ',' :: (newline (depth + 1) ++ quote key ++ ':' :: ' ' :: value.indented (depth + 1) ++
      indentedMembers depth members)

end

def compactText (t : Tree) : String := String.ofList t.compact

def indentedText (t : Tree) : String := String.ofList (t.indented 0)

end Tree

end Curtail.Json
