import Curtail.Json.Value

namespace Curtail.Json.Value

def codeUnits (c : Char) : List Nat :=
  let n := c.toNat
  if n < 0x10000 then [n]
  else [0xD800 + (n - 0x10000) / 0x400, 0xDC00 + (n - 0x10000) % 0x400]

def canonicalEscape (c : Char) : List Char :=
  match c with
  | '"' => ['\\', '"']
  | '\\' => ['\\', '\\']
  | '\x08' => ['\\', 'b']
  | '\x0c' => ['\\', 'f']
  | '\n' => ['\\', 'n']
  | '\r' => ['\\', 'r']
  | '\t' => ['\\', 't']
  | c =>
    if 0x20 ≤ c.toNat ∧ c.toNat < 0x7F then [c]
    else (codeUnits c).flatMap fun unit => '\\' :: 'u' :: Text.hexFour unit

def canonicalQuote (s : String) : List Char :=
  '"' :: (s.toList.flatMap canonicalEscape ++ ['"'])

def canonicalForm : Numeral.ExponentForm := ⟨'E', false⟩

def canonicalNumber : Number → List Char
  | .integer n => Numeral.intText n
  | .double x => (Numeral.scientific x).text canonicalForm

mutual

def canonical : Value → List Char
  | .null => ['n', 'u', 'l', 'l']
  | .bool true => ['t', 'r', 'u', 'e']
  | .bool false => ['f', 'a', 'l', 's', 'e']
  | .number n => canonicalNumber n
  | .string s => canonicalQuote s
  | .array [] => ['[', ']']
  | .array (item :: items) => '[' :: (item.canonical ++ canonicalItems items)
  | .object [] => ['{', '}']
  | .object ((key, value) :: members) =>
    '{' :: (canonicalQuote key ++ ':' :: (value.canonical ++ canonicalMembers members))

def canonicalItems : List Value → List Char
  | [] => [']']
  | item :: items => ',' :: (item.canonical ++ canonicalItems items)

def canonicalMembers : List (String × Value) → List Char
  | [] => ['}']
  | (key, value) :: members =>
    ',' :: (canonicalQuote key ++ ':' :: (value.canonical ++ canonicalMembers members))

end

def canonicalText (v : Value) : String := String.ofList v.canonical

end Curtail.Json.Value
