import Curtail.Proofs.Json.Canonical
import Curtail.Proofs.Json.Extension

namespace Curtail.Json

def IsGap (cs : List Char) : Prop :=
  ∀ c ∈ cs, c = ' ' ∨ c = '\n' ∨ c = '\t' ∨ c = '\r'

def Padded (core : List Char → Prop) (cs : List Char) : Prop :=
  ∃ front text back, IsGap front ∧ core text ∧ IsGap back ∧ cs = front ++ (text ++ back)

def hexDigits : List (Nat × Char) :=
  [(0, '0'), (1, '1'), (2, '2'), (3, '3'), (4, '4'), (5, '5'), (6, '6'), (7, '7'), (8, '8'), (9, '9'),
    (10, 'a'), (11, 'b'), (12, 'c'), (13, 'd'), (14, 'e'), (15, 'f'),
    (10, 'A'), (11, 'B'), (12, 'C'), (13, 'D'), (14, 'E'), (15, 'F')]

inductive UnitText : Nat → List Char → Prop
  | digits {a b c d : Nat} {w x y z : Char} : (a, w) ∈ hexDigits → (b, x) ∈ hexDigits →
      (c, y) ∈ hexDigits → (d, z) ∈ hexDigits →
      UnitText (a * 4096 + b * 256 + c * 16 + d) ['\\', 'u', w, x, y, z]

def shortEscapes : List (Char × Char) :=
  [('"', '"'), ('\\', '\\'), ('/', '/'), ('b', '\x08'), ('f', '\x0c'), ('n', '\n'), ('r', '\r'),
    ('t', '\t')]

/-- The spellings of a character inside quotes. -/
inductive CharText : Char → List Char → Prop
  | itself {c : Char} : c ≠ '"' → c ≠ '\\' → 0x20 ≤ c.toNat → CharText c [c]
  | short {mark c : Char} : (mark, c) ∈ shortEscapes → CharText c ['\\', mark]
  | unit {c : Char} {cs : List Char} : UnitText c.toNat cs → CharText c cs
  | pair {c : Char} {high low : Nat} {front back : List Char} : UnitText high front →
      UnitText low back → 0xD800 ≤ high → high < 0xDC00 → 0xDC00 ≤ low → low < 0xE000 →
      c.toNat = 0x10000 + (high - 0xD800) * 0x400 + (low - 0xDC00) → CharText c (front ++ back)

inductive CharsText : List Char → List Char → Prop
  | nil : CharsText [] []
  | cons {c : Char} {cs front back : List Char} : CharText c front → CharsText cs back →
      CharsText (c :: cs) (front ++ back)

def QuotedText (s : Spelled) (cs : List Char) : Prop :=
  ∃ name body, s = some name ∧ CharsText name.toList body ∧ cs = '"' :: (body ++ ['"'])

theorem Padded.bare {core : List Char → Prop} {cs : List Char} (text : core cs) : Padded core cs :=
  ⟨[], cs, [], nofun, text, nofun, by simp⟩

section Strings

theorem CharsText.itself {cs : List Char} (plain : ∀ c ∈ cs, c ≠ '"' ∧ c ≠ '\\' ∧ 0x20 ≤ c.toNat) :
    CharsText cs cs := by
  induction cs with
  | nil => exact .nil
  | cons c cs ih =>
      obtain ⟨⟨unquoted, unescaped, printable⟩, others⟩ := List.forall_mem_cons.mp plain
      exact .cons (.itself unquoted unescaped printable) (ih others)

theorem QuotedText.itself {s : String} (plain : ∀ c ∈ s.toList, c ≠ '"' ∧ c ≠ '\\' ∧ 0x20 ≤ c.toNat) :
    QuotedText (some s) ('"' :: (s.toList ++ ['"'])) :=
  ⟨s, s.toList, rfl, .itself plain, rfl⟩

theorem hexDigit?_of_mem {n : Nat} {c : Char} (digit : (n, c) ∈ hexDigits) :
    Text.hexDigit? c = some n := by
  have all : ∀ digit ∈ hexDigits, Text.hexDigit? digit.2 = some digit.1 := by decide
  exact all _ digit

theorem UnitText.read {n : Nat} {cs : List Char} (text : UnitText n cs) (p : Partial)
    (rest : List Char) : readString p (cs ++ rest) = readString (p.pushUnit n) rest := by
  cases text with
  | digits first second third fourth =>
      simp [readString, Text.hexFour?, hexDigit?_of_mem first, hexDigit?_of_mem second,
        hexDigit?_of_mem third, hexDigit?_of_mem fourth]

theorem unescape?_of_mem {mark c : Char} (short : (mark, c) ∈ shortEscapes) :
    unescape? mark = some c := by
  have all : ∀ escape ∈ shortEscapes, unescape? escape.1 = some escape.2 := by decide
  exact all _ short

theorem CharText.read {c : Char} {cs : List Char} (text : CharText c cs) (acc rest : List Char) :
    readString ⟨acc, none, true⟩ (cs ++ rest) = readString ⟨c :: acc, none, true⟩ rest := by
  cases text with
  | itself unquoted unescaped printable => exact readString_itself _ unquoted unescaped printable rest
  | short listed => exact readString_escaped _ (unescape?_of_mem listed) rest
  | unit text => rw [text.read, Partial.pushUnit_single]
  | pair first second above high low below joined =>
      rw [List.append_assoc, first.read, second.read,
        Partial.pushUnit_pair acc c (by simp [isHigh, above, high]) (by simp [isLow, low, below])
          joined.symm]

theorem CharsText.read {name body : List Char} (text : CharsText name body) (acc rest : List Char) :
    readString ⟨acc, none, true⟩ (body ++ '"' :: rest) =
      some (some (String.ofList (acc.reverse ++ name)), rest) := by
  induction text generalizing acc with
  | nil => simp [readString, Partial.spelled]
  | cons char _ ih =>
      rw [List.append_assoc, char.read, ih]
      simp

theorem QuotedText.read {s : Spelled} {cs : List Char} (text : QuotedText s cs) (rest : List Char) :
    ∃ behind, cs ++ rest = '"' :: behind ∧ readQuoted behind = some (s, rest) := by
  obtain ⟨name, body, rfl, spelled, rfl⟩ := text
  refine ⟨body ++ '"' :: rest, by simp, ?_⟩
  simp [readQuoted, spelled.read]

end Strings

section Gaps

theorem isSpace_of_mem {gap : List Char} (blank : IsGap gap) {c : Char} (member : c ∈ gap) :
    isSpace c = true := by
  rcases blank c member with rfl | rfl | rfl | rfl <;> rfl

theorem IsGap.skipSpace {gap : List Char} (blank : IsGap gap) (cs : List Char) :
    skipSpace (gap ++ cs) = skipSpace cs :=
  List.dropWhile_append_of_pos fun _ member => isSpace_of_mem blank member

theorem IsGap.ends {gap rest : List Char} (blank : IsGap gap) (ends : EndsNumber rest) :
    EndsNumber (gap ++ rest) := by
  cases gap with
  | nil => exact ends
  | cons c cs =>
      rcases blank c List.mem_cons_self with rfl | rfl | rfl | rfl <;>
        exact endsNumber_cons _ (by decide) (by decide) (by decide) (by decide)

theorem readValue_skipSpace (fuel : Nat) {cs ds : List Char} (same : skipSpace cs = skipSpace ds) :
    readValue fuel cs = readValue fuel ds := by
  cases fuel with
  | zero => rfl
  | succ fuel => rw [readValue, readValue, same]

theorem readItems_skipSpace (fuel : Nat) {cs ds : List Char} (same : skipSpace cs = skipSpace ds) :
    readItems fuel cs = readItems fuel ds := by
  cases fuel with
  | zero => rfl
  | succ fuel => rw [readItems, readItems, readValue_skipSpace fuel same]

theorem readMembers_skipSpace (fuel : Nat) {cs ds : List Char} (same : skipSpace cs = skipSpace ds) :
    readMembers fuel cs = readMembers fuel ds := by
  cases fuel with
  | zero => rfl
  | succ fuel => rw [readMembers, readMembers, same]

theorem skipSpace_skipSpace {cs rest : List Char} {c : Char} (skipped : skipSpace cs = c :: rest) :
    skipSpace (c :: rest) = skipSpace cs := by
  rw [skipSpace_cons (isSpace_of_skipSpace skipped), skipped]

theorem readValue_bracket (fuel : Nat) {cs rest : List Char} {c : Char}
    (first : skipSpace cs = c :: rest) (unclosed : c ≠ ']') :
    readValue (fuel + 1) ('[' :: cs) =
      (readItems fuel cs).map fun (items, rest) => (.array items, rest) := by
  rw [readValue_array (skipSpace_cons (by decide) cs) first unclosed,
    readItems_skipSpace fuel (skipSpace_skipSpace first)]

theorem readValue_brace (fuel : Nat) {cs rest : List Char} {c : Char}
    (first : skipSpace cs = c :: rest) (unclosed : c ≠ '}') :
    readValue (fuel + 1) ('{' :: cs) =
      (readMembers fuel cs).map fun (members, rest) => (.object members, rest) := by
  rw [readValue_object (skipSpace_cons (by decide) cs) first unclosed,
    readMembers_skipSpace fuel (skipSpace_skipSpace first)]

variable {core : List Char → Prop} {cs rest : List Char}

theorem Padded.split (padded : Padded core cs) (rest : List Char) :
    ∃ text gap, core text ∧ IsGap gap ∧ text.length ≤ cs.length ∧
      skipSpace (cs ++ rest) = skipSpace (text ++ (gap ++ rest)) := by
  obtain ⟨front, text, back, before, holds, after, rfl⟩ := padded
  refine ⟨text, back, holds, after, ?_, ?_⟩
  · simp only [List.length_append]
    omega
  · rw [List.append_assoc, List.append_assoc, before.skipSpace]

theorem Padded.readQuoted {key : Spelled} (padded : Padded (QuotedText key) cs) (rest : List Char) :
    ∃ behind after, skipSpace (cs ++ rest) = '"' :: behind ∧
      Json.readQuoted behind = some (key, after) ∧ skipSpace after = skipSpace rest := by
  obtain ⟨text, gap, quoted, blank, -, skipped⟩ := padded.split rest
  obtain ⟨behind, opened, read⟩ := quoted.read (gap ++ rest)
  rw [opened, skipSpace_cons (by decide)] at skipped
  exact ⟨behind, gap ++ rest, skipped, read, blank.skipSpace rest⟩

theorem readMembers_member (fuel : Nat) {key : Spelled} {name text after : List Char} {value : Tree}
    (named : Padded (QuotedText key) name) (read : readValue fuel text = some (value, after)) :
    readMembers (fuel + 1) (name ++ ':' :: text) =
      match skipSpace after with
      | '}' :: rest => some ([(key, value)], rest)
      | ',' :: rest =>
        (readMembers fuel rest).map fun (members, rest) => ((key, value) :: members, rest)
      | _ => none := by
  obtain ⟨behind, between, opened, quoted, colon⟩ := named.readQuoted (':' :: text)
  rw [skipSpace_cons (by decide)] at colon
  rw [readMembers, opened]
  simp only [quoted, colon]
  rewrite [read]
  rfl

end Gaps

namespace Tree

mutual

def IsText : Tree → List Char → Prop
  | .null, cs => cs = "null".toList
  | .bool true, cs => cs = "true".toList
  | .bool false, cs => cs = "false".toList
  | .number n, cs => n.IsText cs
  | .string s, cs => QuotedText s cs
  | .array [], cs => ∃ gap, IsGap gap ∧ cs = '[' :: (gap ++ [']'])
  | .array (item :: items), cs =>
    ∃ first others, Padded item.IsText first ∧ ItemsText items others ∧ cs = '[' :: (first ++ others)
  | .object [], cs => ∃ gap, IsGap gap ∧ cs = '{' :: (gap ++ ['}'])
  | .object ((key, value) :: members), cs =>
    ∃ name first others, Padded (QuotedText key) name ∧ Padded value.IsText first ∧
      MembersText members others ∧ cs = '{' :: (name ++ ':' :: (first ++ others))

def ItemsText : List Tree → List Char → Prop
  | [], cs => cs = [']']
  | item :: items, cs =>
    ∃ first others, Padded item.IsText first ∧ ItemsText items others ∧ cs = ',' :: (first ++ others)

def MembersText : List (Spelled × Tree) → List Char → Prop
  | [], cs => cs = ['}']
  | (key, value) :: members, cs =>
    ∃ name first others, Padded (QuotedText key) name ∧ Padded value.IsText first ∧
      MembersText members others ∧ cs = ',' :: (name ++ ':' :: (first ++ others))

end

variable {cs rest : List Char}

theorem IsText.cons {t : Tree} (text : t.IsText cs) :
    ∃ c behind, cs = c :: behind ∧ isSpace c = false ∧ c ≠ ']' := by
  match t with
  | .null => exact ⟨_, _, text, by decide, by decide⟩
  | .bool true => exact ⟨_, _, text, by decide, by decide⟩
  | .bool false => exact ⟨_, _, text, by decide, by decide⟩
  | .number n =>
      obtain ⟨c, behind, same, front⟩ := Numeral.IsText.cons text
      exact ⟨c, behind, same, not_space_of_front front, front_ne front (by decide) (by decide)⟩
  | .string s =>
      obtain ⟨name, body, -, -, rfl⟩ := text
      exact ⟨_, _, rfl, by decide, by decide⟩
  | .array [] =>
      obtain ⟨gap, -, rfl⟩ := text
      exact ⟨_, _, rfl, by decide, by decide⟩
  | .array (item :: items) =>
      obtain ⟨first, others, -, -, rfl⟩ := text
      exact ⟨_, _, rfl, by decide, by decide⟩
  | .object [] =>
      obtain ⟨gap, -, rfl⟩ := text
      exact ⟨_, _, rfl, by decide, by decide⟩
  | .object ((key, value) :: members) =>
      obtain ⟨name, first, others, -, -, -, rfl⟩ := text
      exact ⟨_, _, rfl, by decide, by decide⟩

theorem IsText.pos {t : Tree} (text : t.IsText cs) : 0 < cs.length := by
  obtain ⟨c, behind, rfl, -⟩ := text.cons
  simp

theorem itemsText_ends {items : List Tree} (text : ItemsText items cs) (rest : List Char) :
    EndsNumber (cs ++ rest) := by
  cases items with
  | nil =>
      rw [ItemsText] at text
      subst text
      exact endsNumber_cons _ (by decide) (by decide) (by decide) (by decide)
  | cons item items =>
      obtain ⟨first, others, -, -, rfl⟩ := text
      exact endsNumber_cons _ (by decide) (by decide) (by decide) (by decide)

theorem membersText_ends {members : List (Spelled × Tree)} (text : MembersText members cs)
    (rest : List Char) : EndsNumber (cs ++ rest) := by
  cases members with
  | nil =>
      rw [MembersText] at text
      subst text
      exact endsNumber_cons _ (by decide) (by decide) (by decide) (by decide)
  | cons member members =>
      obtain ⟨name, first, others, -, -, -, rfl⟩ := text
      exact endsNumber_cons _ (by decide) (by decide) (by decide) (by decide)

theorem skipSpace_padded {t : Tree} (padded : Padded t.IsText cs) (rest : List Char) :
    ∃ c after, skipSpace (cs ++ rest) = c :: after ∧ c ≠ ']' := by
  obtain ⟨text, gap, holds, -, -, skipped⟩ := padded.split rest
  obtain ⟨c, behind, rfl, solid, unclosed⟩ := holds.cons
  rw [List.cons_append, skipSpace_cons solid] at skipped
  exact ⟨c, _, skipped, unclosed⟩

theorem readValue_padded {t : Tree} (padded : Padded t.IsText cs) {fuel : Nat}
    (read : ∀ text rest, t.IsText text → 2 * text.length ≤ fuel → EndsNumber rest →
      readValue fuel (text ++ rest) = some (t, rest))
    (room : 2 * cs.length ≤ fuel) (ends : EndsNumber rest) :
    ∃ after, readValue fuel (cs ++ rest) = some (t, after) ∧ skipSpace after = skipSpace rest := by
  obtain ⟨text, gap, holds, blank, size, skipped⟩ := padded.split rest
  refine ⟨gap ++ rest, ?_, blank.skipSpace rest⟩
  rw [readValue_skipSpace fuel skipped]
  exact read text (gap ++ rest) holds (by omega) (blank.ends ends)

mutual

theorem IsText.read {t : Tree} {cs : List Char} (text : t.IsText cs) (fuel : Nat) (rest : List Char)
    (room : 2 * cs.length ≤ fuel) (ends : EndsNumber rest) :
    readValue fuel (cs ++ rest) = some (t, rest) := by
  match fuel, t with
  | 0, _ =>
      have := text.pos
      omega
  | _ + 1, .null =>
      cases text
      rfl
  | _ + 1, .bool true =>
      cases text
      rfl
  | _ + 1, .bool false =>
      cases text
      rfl
  | fuel + 1, .number n =>
      obtain ⟨c, behind, rfl, front⟩ := Numeral.IsText.cons text
      rw [List.cons_append, readValue_front _ front, ← List.cons_append,
        Numeral.IsText.read text ends]
      rfl
  | fuel + 1, .string s =>
      obtain ⟨behind, opened, read⟩ := QuotedText.read text rest
      rw [opened]
      simp [readValue, skipSpace_cons (c := '"') (by decide), read]
  | _ + 1, .array [] =>
      obtain ⟨gap, blank, rfl⟩ := text
      have closed : skipSpace (gap ++ ']' :: rest) = ']' :: rest := by
        rw [blank.skipSpace, skipSpace_cons (by decide)]
      simp [readValue, skipSpace_cons (c := '[') (by decide), closed]
  | fuel + 1, .array (item :: items) =>
      obtain ⟨first, others, item', others', rfl⟩ := text
      simp only [List.length_cons, List.length_append] at room
      have read := readItems_text item' others' fuel rest (by omega)
      obtain ⟨c, after, opened, unclosed⟩ := skipSpace_padded item' (others ++ rest)
      rw [List.cons_append, List.append_assoc, readValue_bracket fuel opened unclosed, read]
      rfl
  | _ + 1, .object [] =>
      obtain ⟨gap, blank, rfl⟩ := text
      have closed : skipSpace (gap ++ '}' :: rest) = '}' :: rest := by
        rw [blank.skipSpace, skipSpace_cons (by decide)]
      simp [readValue, skipSpace_cons (c := '{') (by decide), closed]
  | fuel + 1, .object ((key, value) :: members) =>
      obtain ⟨name, first, others, named, value', others', rfl⟩ := text
      simp only [List.length_cons, List.length_append] at room
      have read := readMembers_text named value' others' fuel rest (by omega)
      obtain ⟨behind, -, opened, -⟩ := named.readQuoted (':' :: (first ++ (others ++ rest)))
      rw [List.cons_append, List.append_assoc, List.cons_append, List.append_assoc,
        readValue_brace fuel opened (by decide), read]
      rfl

theorem readItems_text {item : Tree} {items : List Tree} {first others : List Char}
    (padded : Padded item.IsText first) (text : ItemsText items others) (fuel : Nat) (rest : List Char)
    (room : 2 * (first.length + others.length) + 1 ≤ fuel) :
    readItems fuel (first ++ (others ++ rest)) = some (item :: items, rest) := by
  match fuel, items with
  | 0, _ => omega
  | fuel + 1, [] =>
      obtain ⟨after, read, skipped⟩ := readValue_padded padded
        (fun text rest holds room ends => IsText.read holds fuel rest room ends) (by omega)
        (itemsText_ends text rest)
      rw [ItemsText] at text
      subst text
      rw [readItems_first fuel read, skipped]
      rfl
  | fuel + 1, next :: items =>
      obtain ⟨after, read, skipped⟩ := readValue_padded padded
        (fun text rest holds room ends => IsText.read holds fuel rest room ends) (by omega)
        (itemsText_ends text rest)
      obtain ⟨second, others, next', others', rfl⟩ := text
      simp only [List.length_cons, List.length_append] at room
      have reads := readItems_text next' others' fuel rest (by omega)
      rw [readItems_first fuel read, skipped, List.cons_append, List.append_assoc,
        skipSpace_cons (by decide)]
      simp only [reads]
      rfl

theorem readMembers_text {key : Spelled} {value : Tree} {members : List (Spelled × Tree)}
    {name first others : List Char} (named : Padded (QuotedText key) name)
    (padded : Padded value.IsText first) (text : MembersText members others) (fuel : Nat)
    (rest : List Char) (room : 2 * (first.length + others.length) + 1 ≤ fuel) :
    readMembers fuel (name ++ ':' :: (first ++ (others ++ rest))) =
      some ((key, value) :: members, rest) := by
  match fuel, members with
  | 0, _ => omega
  | fuel + 1, [] =>
      obtain ⟨after, read, skipped⟩ := readValue_padded padded
        (fun text rest holds room ends => IsText.read holds fuel rest room ends) (by omega)
        (membersText_ends text rest)
      rw [MembersText] at text
      subst text
      rw [readMembers_member fuel named read, skipped]
      rfl
  | fuel + 1, (next, other) :: members =>
      obtain ⟨after, read, skipped⟩ := readValue_padded padded
        (fun text rest holds room ends => IsText.read holds fuel rest room ends) (by omega)
        (membersText_ends text rest)
      obtain ⟨second, third, others, next', other', others', rfl⟩ := text
      simp only [List.length_cons, List.length_append] at room
      have reads := readMembers_text next' other' others' fuel rest (by omega)
      rw [readMembers_member fuel named read, skipped, List.cons_append, List.append_assoc,
        List.cons_append, List.append_assoc, skipSpace_cons (by decide)]
      simp only [reads]
      rfl

end

theorem readFront?_padded {t : Tree} (padded : Padded t.IsText cs) :
    ∃ after, readFront? cs = some (t, after) ∧ skipSpace after = [] := by
  obtain ⟨after, read, blank⟩ := readValue_padded padded
    (fun _ rest holds room ends => holds.read (2 * cs.length + 2) rest room ends) (by omega) .nil
  rw [List.append_nil] at read
  exact ⟨after, read, blank⟩

theorem ofChars?_padded {t : Tree} (padded : Padded t.IsText cs) : ofChars? cs = some t := by
  obtain ⟨after, front, blank⟩ := readFront?_padded padded
  simp [ofChars?, front, blank]

end Tree

end Curtail.Json
