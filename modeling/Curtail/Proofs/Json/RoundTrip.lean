import Curtail.Proofs.Json.Numeral
import Curtail.Proofs.Text.Hex

/-!
The text of a tree without white space is read back as that tree. There are two such texts, which
differ in what they escape and in how they write exponents; they are styles of one text.
-/

namespace Curtail.Json

theorem toNat_bounds (c : Char) : c.toNat < 0xD800 ∨ 0xDFFF < c.toNat ∧ c.toNat < 0x110000 := c.valid

theorem Partial.pushUnit_single (acc : List Char) (c : Char) :
    Partial.pushUnit ⟨acc, none, true⟩ c.toNat = ⟨c :: acc, none, true⟩ := by
  have bounds := toNat_bounds c
  have high : isHigh c.toNat = false := by simp [isHigh]; omega
  have low : isLow c.toNat = false := by simp [isLow]; omega
  simp [Partial.pushUnit, high, low]

theorem readString_unit (p : Partial) {n : Nat} (small : n < 65536) (cs : List Char) :
    readString p ('\\' :: 'u' :: (Text.hexFour n ++ cs)) = readString (p.pushUnit n) cs := by
  simp only [Text.hexFour, List.cons_append, List.nil_append, readString, Text.hexFour?_hexFour small]

theorem readString_itself (p : Partial) {c : Char} (unquoted : c ≠ '"') (unescaped : c ≠ '\\')
    (printable : 0x20 ≤ c.toNat) (cs : List Char) :
    readString p (c :: cs) = readString (p.push c) cs := by
  rw [readString]
  · simp [Nat.not_lt.mpr printable, unescaped]
  all_goals simp_all

theorem readString_escaped (p : Partial) {mark c : Char} (meant : unescape? mark = some c)
    (cs : List Char) : readString p ('\\' :: mark :: cs) = readString (p.push c) cs := by
  rw [readString]
  · simp only [meant]
  · rintro _ _ _ _ _ rfl
    cases meant

theorem readString_escape (acc : List Char) (c : Char) (cs : List Char) :
    readString ⟨acc, none, true⟩ (Tree.escape c ++ cs) = readString ⟨c :: acc, none, true⟩ cs := by
  unfold Tree.escape
  split
  -- Seven characters have an escape of their own; all other controls are escaped by their number.
  iterate 7 (simp [readString, unescape?, Partial.push])
  rename_i unquoted unescaped _ _ _ _ _
  split
  · rw [List.cons_append, List.cons_append, readString_unit _ (by omega), Partial.pushUnit_single]
  · rename_i plain
    exact readString_itself _ unquoted unescaped (Nat.not_lt.mp plain) cs

/-- What stands for a character in quotes, and how exponents look. -/
structure Style where
  escape : Char → List Char
  form : Numeral.ExponentForm

namespace Style

def compact : Style := ⟨Tree.escape, Tree.numberForm⟩

structure IsReadable (style : Style) : Prop where
  escape : ∀ acc c cs, readString ⟨acc, none, true⟩ (style.escape c ++ cs) =
    readString ⟨c :: acc, none, true⟩ cs
  mark : style.form.mark = 'e' ∨ style.form.mark = 'E'

theorem compact_isReadable : compact.IsReadable := ⟨readString_escape, .inl rfl⟩

def quote (style : Style) (s : Spelled) : List Char :=
  '"' :: ((s.getD "").toList.flatMap style.escape ++ ['"'])

variable {style : Style}

theorem IsReadable.readString_quoted (readable : style.IsReadable) (acc cs rest : List Char) :
    readString ⟨acc, none, true⟩ (cs.flatMap style.escape ++ '"' :: rest) =
      some (some (String.ofList (acc.reverse ++ cs)), rest) := by
  induction cs generalizing acc with
  | nil => simp [readString, Partial.spelled]
  | cons c cs ih =>
      rw [List.flatMap_cons, List.append_assoc, readable.escape, ih]
      simp

theorem IsReadable.readQuoted_quote (readable : style.IsReadable) (s : String) (rest : List Char) :
    readQuoted (s.toList.flatMap style.escape ++ '"' :: rest) = some (some s, rest) := by
  simp [readQuoted, readable.readString_quoted]

end Style

namespace Tree

mutual

def print (style : Style) : Tree → List Char
  | .null => ['n', 'u', 'l', 'l']
  | .bool true => ['t', 'r', 'u', 'e']
  | .bool false => ['f', 'a', 'l', 's', 'e']
  | .number n => n.text style.form
  | .string s => style.quote s
  | .array [] => ['[', ']']
  | .array (item :: items) => '[' :: (item.print style ++ printItems style items)
  | .object [] => ['{', '}']
  | .object ((key, value) :: members) =>
    '{' :: (style.quote key ++ ':' :: (value.print style ++ printMembers style members))

def printItems (style : Style) : List Tree → List Char
  | [] => [']']
  | item :: items => ',' :: (item.print style ++ printItems style items)

def printMembers (style : Style) : List (Spelled × Tree) → List Char
  | [] => ['}']
  | (key, value) :: members =>
    ',' :: (style.quote key ++ ':' :: (value.print style ++ printMembers style members))

end

mutual

theorem compact_eq_print : (t : Tree) → t.compact = t.print .compact
  | .null => rfl
  | .bool true => rfl
  | .bool false => rfl
  | .number _ => rfl
  | .string _ => rfl
  | .array [] => rfl
  | .array (item :: items) => by
      rw [compact, print, compact_eq_print item, compactItems_eq_print items]
  | .object [] => rfl
  | .object ((key, value) :: members) => by
      rw [compact, print, compact_eq_print value, compactMembers_eq_print members]
      rfl

theorem compactItems_eq_print : (items : List Tree) → compactItems items = printItems .compact items
  | [] => rfl
  | item :: items => by
      rw [compactItems, printItems, compact_eq_print item, compactItems_eq_print items]

theorem compactMembers_eq_print : (members : List (Spelled × Tree)) →
    compactMembers members = printMembers .compact members
  | [] => rfl
  | (key, value) :: members => by
      rw [compactMembers, printMembers, compact_eq_print value, compactMembers_eq_print members]
      rfl

end

mutual

def IsPlain : Tree → Prop
  | .null => True
  | .bool _ => True
  | .number n => n.IsProper
  | .string s => s.isSome
  | .array items => ArePlain items
  | .object members => MembersArePlain members

def ArePlain : List Tree → Prop
  | [] => True
  | item :: items => item.IsPlain ∧ ArePlain items

def MembersArePlain : List (Spelled × Tree) → Prop
  | [] => True
  | (key, value) :: members => key.isSome ∧ value.IsPlain ∧ MembersArePlain members

end

end Tree

theorem skipSpace_cons {c : Char} (plain : isSpace c = false) (cs : List Char) :
    skipSpace (c :: cs) = c :: cs := by
  simp [skipSpace, plain]

theorem front_ne {c d : Char} (front : c = '-' ∨ c.isDigit = true) (minus : d ≠ '-')
    (other : d.isDigit = false) : c ≠ d := by
  rcases front with rfl | digit
  · exact minus.symm
  · exact ne_of_isDigit digit other

theorem not_space_of_front {c : Char} (front : c = '-' ∨ c.isDigit = true) : isSpace c = false := by
  have blank := front_ne (d := ' ') front (by decide) (by decide)
  have newline := front_ne (d := '\n') front (by decide) (by decide)
  have tab := front_ne (d := '\t') front (by decide) (by decide)
  have ret := front_ne (d := '\r') front (by decide) (by decide)
  simp [isSpace, blank, newline, tab, ret]

theorem readValue_front (fuel : Nat) {c : Char} (front : c = '-' ∨ c.isDigit = true) (cs : List Char) :
    readValue (fuel + 1) (c :: cs) =
      (readNumeral (c :: cs)).map fun (n, rest) => (.number n, rest) := by
  unfold readValue
  rw [skipSpace_cons (not_space_of_front front)]
  split
  case h_7 => rfl
  all_goals
    rename_i h
    exact absurd (List.cons.inj h).1 (front_ne front (by decide) (by decide))

namespace Tree

variable {style : Style}

theorem print_cons (style : Style) (t : Tree) :
    ∃ c cs, t.print style = c :: cs ∧ isSpace c = false ∧ c ≠ ']' := by
  cases t with
  | null => exact ⟨_, _, rfl, by decide, by decide⟩
  | bool b => cases b <;> exact ⟨_, _, rfl, by decide, by decide⟩
  | number n =>
      obtain ⟨c, cs, text, front⟩ := n.text_cons style.form
      exact ⟨c, cs, text, not_space_of_front front, front_ne front (by decide) (by decide)⟩
  | string s => exact ⟨_, _, rfl, by decide, by decide⟩
  | array items => cases items <;> exact ⟨_, _, rfl, by decide, by decide⟩
  | object members =>
      cases members with
      | nil => exact ⟨_, _, rfl, by decide, by decide⟩
      | cons member members => exact ⟨_, _, rfl, by decide, by decide⟩

theorem print_pos (style : Style) (t : Tree) : 0 < (t.print style).length := by
  obtain ⟨c, cs, text, -⟩ := t.print_cons style
  simp [text]

theorem skipSpace_print (style : Style) (t : Tree) (rest : List Char) :
    skipSpace (t.print style ++ rest) = t.print style ++ rest := by
  obtain ⟨c, cs, text, plain, -⟩ := t.print_cons style
  rw [text, List.cons_append, skipSpace_cons plain]

theorem printItems_ends (items : List Tree) (rest : List Char) :
    EndsNumber (printItems style items ++ rest) := by
  cases items <;> exact endsNumber_cons _ (by decide) (by decide) (by decide) (by decide)

theorem printMembers_ends (members : List (Spelled × Tree)) (rest : List Char) :
    EndsNumber (printMembers style members ++ rest) := by
  cases members <;> exact endsNumber_cons _ (by decide) (by decide) (by decide) (by decide)

theorem readValue_string (readable : style.IsReadable) (fuel : Nat) (s : String) (rest : List Char) :
    readValue (fuel + 1) (style.quote (some s) ++ rest) = some (.string (some s), rest) := by
  have quoted := readable.readQuoted_quote s rest
  simp [Style.quote, readValue, skipSpace, isSpace, quoted]

theorem readValue_items (fuel : Nat) (item : Tree) (rest : List Char) :
    readValue (fuel + 1) ('[' :: (item.print style ++ rest)) =
      (readItems fuel (item.print style ++ rest)).map fun (items, rest) => (.array items, rest) := by
  obtain ⟨c, cs, text, -, open'⟩ := item.print_cons style
  have skip := skipSpace_print style item rest
  rw [text, List.cons_append] at skip ⊢
  simp only [readValue, skipSpace_cons (c := '[') (by decide), skip]
  split
  · rename_i h
    exact absurd (List.cons.inj h).1 open'
  · rfl

theorem readValue_members (fuel : Nat) (key : Spelled) (rest : List Char) :
    readValue (fuel + 1) ('{' :: (style.quote key ++ rest)) =
      (readMembers fuel (style.quote key ++ rest)).map fun (members, rest) => (.object members, rest) := by
  simp [readValue, Style.quote, skipSpace, isSpace]

theorem readMembers_first (readable : style.IsReadable) (fuel : Nat) (key : String) {value : Tree}
    {text rest : List Char} (read : readValue fuel text = some (value, rest)) :
    readMembers (fuel + 1) (style.quote (some key) ++ ':' :: text) =
      match skipSpace rest with
      | '}' :: rest => some ([(some key, value)], rest)
      | ',' :: rest =>
        (readMembers fuel rest).map fun (members, rest) => ((some key, value) :: members, rest)
      | _ => none := by
  have quoted := readable.readQuoted_quote key (':' :: text)
  have front : skipSpace (style.quote (some key) ++ ':' :: text) =
      '"' :: (key.toList.flatMap style.escape ++ '"' :: ':' :: text) := by
    simp [Style.quote, skipSpace, isSpace]
  rw [readMembers, front]
  simp only [quoted, skipSpace_cons (c := ':') (by decide)]
  rewrite [read]
  rfl

theorem readItems_first (fuel : Nat) {item : Tree} {text rest : List Char}
    (read : readValue fuel text = some (item, rest)) :
    readItems (fuel + 1) text =
      match skipSpace rest with
      | ']' :: rest => some ([item], rest)
      | ',' :: rest => (readItems fuel rest).map fun (items, rest) => (item :: items, rest)
      | _ => none := by
  rewrite [readItems, read]
  rfl

mutual

/-- Reading takes up no more calls than twice the characters that are read. -/
theorem readValue_print (readable : style.IsReadable) (t : Tree) (plain : t.IsPlain) (fuel : Nat)
    (rest : List Char) (room : 2 * (t.print style).length ≤ fuel) (ends : EndsNumber rest) :
    readValue fuel (t.print style ++ rest) = some (t, rest) := by
  match fuel, t with
  | 0, t =>
      have := t.print_pos style
      omega
  | _ + 1, .null => rfl
  | _ + 1, .bool true => rfl
  | _ + 1, .bool false => rfl
  | fuel + 1, .number n =>
      obtain ⟨c, cs, text, front⟩ := n.text_cons style.form
      have read := Numeral.readNumeral_text style.form readable.mark plain ends
      rw [print]
      rw [text, List.cons_append] at read ⊢
      rw [readValue_front _ front, read]
      rfl
  | _ + 1, .string none => exact absurd plain (by simp [IsPlain])
  | fuel + 1, .string (some s) => exact readValue_string readable fuel s rest
  | _ + 1, .array [] => rfl
  | fuel + 1, .array (item :: items) =>
      simp only [print, List.length_cons, List.length_append] at room
      have read := readItems_print readable item items plain.1 plain.2 fuel rest (by omega)
      rw [print, List.cons_append, List.append_assoc, readValue_items, read]
      rfl
  | _ + 1, .object [] => rfl
  | _ + 1, .object ((none, value) :: members) => exact absurd plain.1 (by simp)
  | fuel + 1, .object ((some key, value) :: members) =>
      simp only [print, List.length_cons, List.length_append] at room
      have read := readMembers_print readable key value members plain.2.1 plain.2.2 fuel rest (by omega)
      rw [print, List.cons_append, List.append_assoc, List.cons_append, List.append_assoc,
        readValue_members, read]
      rfl

theorem readItems_print (readable : style.IsReadable) (item : Tree) (items : List Tree)
    (first : item.IsPlain) (others : ArePlain items) (fuel : Nat) (rest : List Char)
    (room : 2 * ((item.print style).length + (printItems style items).length) + 1 ≤ fuel) :
    readItems fuel (item.print style ++ (printItems style items ++ rest)) = some (item :: items, rest) := by
  match fuel, items with
  | 0, _ => omega
  | fuel + 1, [] =>
      have read := readValue_print readable item first fuel (printItems style [] ++ rest) (by omega)
        (printItems_ends [] rest)
      rw [readItems_first fuel read]
      rfl
  | fuel + 1, next :: items =>
      simp only [printItems, List.length_cons, List.length_append] at room
      have read := readValue_print readable item first fuel (printItems style (next :: items) ++ rest)
        (by omega) (printItems_ends _ rest)
      have reads := readItems_print readable next items others.1 others.2 fuel rest (by omega)
      rw [readItems_first fuel read]
      simp only [printItems, List.cons_append, List.append_assoc,
        skipSpace_cons (c := ',') (by decide), reads]
      rfl

theorem readMembers_print (readable : style.IsReadable) (key : String) (value : Tree)
    (members : List (Spelled × Tree)) (first : value.IsPlain) (others : MembersArePlain members)
    (fuel : Nat) (rest : List Char)
    (room : 2 * ((value.print style).length + (printMembers style members).length) + 1 ≤ fuel) :
    readMembers fuel
      (style.quote (some key) ++ ':' :: (value.print style ++ (printMembers style members ++ rest))) =
      some ((some key, value) :: members, rest) := by
  match fuel, members with
  | 0, _ => omega
  | fuel + 1, [] =>
      have read := readValue_print readable value first fuel (printMembers style [] ++ rest) (by omega)
        (printMembers_ends [] rest)
      rw [readMembers_first readable fuel key read]
      rfl
  | _ + 1, (none, next) :: members => exact absurd others.1 (by simp)
  | fuel + 1, (some name, next) :: members =>
      simp only [printMembers, List.length_cons, List.length_append] at room
      have read := readValue_print readable value first fuel
        (printMembers style ((some name, next) :: members) ++ rest) (by omega)
        (printMembers_ends _ rest)
      have reads := readMembers_print readable name next members others.2.1 others.2.2 fuel rest (by omega)
      rw [readMembers_first readable fuel key read]
      simp only [printMembers, List.cons_append, List.append_assoc,
        skipSpace_cons (c := ',') (by decide), reads]
      rfl

end

theorem ofChars?_print (readable : style.IsReadable) {t : Tree} (plain : t.IsPlain) :
    ofChars? (t.print style) = some t := by
  have read := readValue_print readable t plain (2 * (t.print style).length + 2) [] (by omega)
    EndsNumber.nil
  rw [List.append_nil] at read
  have front : readFront? (t.print style) = some (t, []) := read
  simp [ofChars?, front, skipSpace]

theorem ofText?_compactText {t : Tree} (plain : t.IsPlain) : ofText? t.compactText = some t := by
  simp [ofText?, compactText, compact_eq_print, ofChars?_print Style.compact_isReadable plain]

end Tree

end Curtail.Json
