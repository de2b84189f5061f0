import Curtail.Json.Tree

namespace Curtail.Json

def isSpace (c : Char) : Bool :=
  c = ' ' || c = '\n' || c = '\t' || c = '\r'

def skipSpace (cs : List Char) : List Char :=
  cs.dropWhile isSpace

def digit? (c : Char) : Option Nat :=
  if '0' ≤ c ∧ c ≤ '9' then some (c.toNat - 48) else none

def takeDigits (value count : Nat) : List Char → Nat × Nat × List Char
  | [] => (value, count, [])
  | c :: cs =>
    match digit? c with
    | some d => takeDigits (value * 10 + d) (count + 1) cs
    | none => (value, count, c :: cs)

def readWhole : List Char → Option (Nat × List Char)
  | '0' :: cs =>
    match cs.head?.bind digit? with
    | some _ => none
    | none => some (0, cs)
  | cs =>
    let (value, count, rest) := takeDigits 0 0 cs
    if count = 0 then none else some (value, rest)

def readFraction : List Char → Option (Nat × Nat × List Char)
  | '.' :: cs =>
    let (value, count, rest) := takeDigits 0 0 cs
    if count = 0 then none else some (value, count, rest)
  | cs => some (0, 0, cs)

def readPower (negative : Bool) (cs : List Char) : Option (Option Int × List Char) :=
  let (value, count, rest) := takeDigits 0 0 cs
  if count = 0 then none else some (some (if negative then -(value : Int) else value), rest)

def readExponentDigits : List Char → Option (Option Int × List Char)
  | '-' :: cs => readPower true cs
  | '+' :: cs => readPower false cs
  | cs => readPower false cs

def readExponent : List Char → Option (Option Int × List Char)
  | 'e' :: cs => readExponentDigits cs
  | 'E' :: cs => readExponentDigits cs
  | cs => some (none, cs)

def readUnsigned (negative : Bool) (cs : List Char) : Option (Numeral × List Char) := do
  let (whole, cs) ← readWhole cs
  let (fraction, places, cs) ← readFraction cs
  let (exponent, cs) ← readExponent cs
  return (⟨negative, whole, fraction, places, exponent⟩, cs)

def readNumeral : List Char → Option (Numeral × List Char)
  | '-' :: cs => readUnsigned true cs
  | cs => readUnsigned false cs

def isHigh (n : Nat) : Bool := 0xD800 ≤ n && n < 0xDC00

def isLow (n : Nat) : Bool := 0xDC00 ≤ n && n < 0xE000

/-- The characters so far, last one first. A high surrogate waits for its other half. -/
structure Partial where
  chars : List Char
  high : Option Nat
  whole : Bool

namespace Partial

def push (p : Partial) (c : Char) : Partial :=
  ⟨c :: p.chars, none, p.whole && p.high.isNone⟩

def pushUnit (p : Partial) (n : Nat) : Partial :=
  match p.high with
  | some h =>
    if isLow n then ⟨Char.ofNat (0x10000 + (h - 0xD800) * 0x400 + (n - 0xDC00)) :: p.chars, none, p.whole⟩
    else if isHigh n then ⟨p.chars, some n, false⟩
    else ⟨Char.ofNat n :: p.chars, none, false⟩
  | none =>
    if isHigh n then ⟨p.chars, some n, p.whole⟩
    else if isLow n then ⟨p.chars, none, false⟩
    else ⟨Char.ofNat n :: p.chars, none, p.whole⟩

def spelled (p : Partial) : Spelled :=
  if p.whole && p.high.isNone then some (String.ofList p.chars.reverse) else none

end Partial

def unescape? : Char → Option Char
  | '"' => some '"'
  | '\\' => some '\\'
  | '/' => some '/'
  | 'b' => some '\x08'
  | 'f' => some '\x0c'
  | 'n' => some '\n'
  | 'r' => some '\r'
  | 't' => some '\t'
  | _ => none

def readString (p : Partial) : List Char → Option (Spelled × List Char)
  | [] => none
  | '"' :: cs => some (p.spelled, cs)
  | '\\' :: 'u' :: a :: b :: c :: d :: cs =>
    match Text.hexFour? a b c d with
    | some n => readString (p.pushUnit n) cs
    | none => none
  | '\\' :: e :: cs =>
    match unescape? e with
    | some c => readString (p.push c) cs
    | none => none
  | c :: cs => if c.toNat < 0x20 || c = '\\' then none else readString (p.push c) cs

def readQuoted (cs : List Char) : Option (Spelled × List Char) :=
  readString ⟨[], none, true⟩ cs

mutual

/-- Each call uses up one unit of `fuel`. -/
def readValue : Nat → List Char → Option (Tree × List Char)
  | 0, _ => none
  | fuel + 1, cs =>
    match skipSpace cs with
    | 'n' :: 'u' :: 'l' :: 'l' :: rest => some (.null, rest)
    | 't' :: 'r' :: 'u' :: 'e' :: rest => some (.bool true, rest)
    | 'f' :: 'a' :: 'l' :: 's' :: 'e' :: rest => some (.bool false, rest)
    | '"' :: rest => (readQuoted rest).map fun (s, rest) => (.string s, rest)
    | '[' :: rest =>
      match skipSpace rest with
      | ']' :: rest => some (.array [], rest)
      | rest => (readItems fuel rest).map fun (items, rest) => (.array items, rest)
    | '{' :: rest =>
      match skipSpace rest with
      | '}' :: rest => some (.object [], rest)
      | rest => (readMembers fuel rest).map fun (members, rest) => (.object members, rest)
    | rest => (readNumeral rest).map fun (n, rest) => (.number n, rest)

def readItems : Nat → List Char → Option (List Tree × List Char)
  | 0, _ => none
  | fuel + 1, cs =>
    match readValue fuel cs with
    | none => none
    | some (item, rest) =>
      match skipSpace rest with
      | ']' :: rest => some ([item], rest)
      | ',' :: rest => (readItems fuel rest).map fun (items, rest) => (item :: items, rest)
      | _ => none

def readMembers : Nat → List Char → Option (List (Spelled × Tree) × List Char)
  | 0, _ => none
  | fuel + 1, cs =>
    match skipSpace cs with
    | '"' :: rest =>
      match readQuoted rest with
      | none => none
      | some (key, rest) =>
        match skipSpace rest with
        | ':' :: rest =>
          match readValue fuel rest with
          | none => none
          | some (value, rest) =>
            match skipSpace rest with
            | '}' :: rest => some ([(key, value)], rest)
            | ',' :: rest =>
              (readMembers fuel rest).map fun (members, rest) => ((key, value) :: members, rest)
            | _ => none
        | _ => none
    | _ => none

end

namespace Tree

/-- Every value takes up more characters than half the calls that read it. -/
def readFront? (cs : List Char) : Option (Tree × List Char) :=
  readValue (2 * cs.length + 2) cs

def ofChars? (cs : List Char) : Option Tree :=
  match readFront? cs with
  | some (t, rest) => if skipSpace rest = [] then some t else none
  | none => none

def ofText? (s : String) : Option Tree :=
  ofChars? s.toList

end Tree

end Curtail.Json
