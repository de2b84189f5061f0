import Curtail.Json.Canonical
import Curtail.Proofs.Json.RoundTrip
import Curtail.Proofs.Number.Nearest

namespace Curtail.Json

namespace Partial

theorem pushUnit_pair (acc : List Char) (c : Char) {high low : Nat} (front : isHigh high = true)
    (back : isLow low = true)
    (joined : 0x10000 + (high - 0xD800) * 0x400 + (low - 0xDC00) = c.toNat) :
    (pushUnit ⟨acc, none, true⟩ high).pushUnit low = ⟨c :: acc, none, true⟩ := by
  have first : pushUnit ⟨acc, none, true⟩ high = ⟨acc, some high, true⟩ := by
    simp [pushUnit, front]
  rw [first]
  simp only [pushUnit, back, if_true, joined, Char.ofNat_toNat]

end Partial

namespace Numeral

theorem scientific_isProper (x : Binary64) : (scientific x).IsProper :=
  Nat.mod_lt _ (Nat.pow_pos (by decide))

theorem ofInt_injective {m n : Int} (same : ofInt m = ofInt n) : m = n := by
  simp only [ofInt, mk.injEq, decide_eq_decide] at same
  omega

theorem pointed_injective {negative other : Bool} {d e : Decimal}
    (same : pointed negative d.coefficient 1 (some (Decimal.digitCount d.coefficient + d.power - 1)) =
      pointed other e.coefficient 1 (some (Decimal.digitCount e.coefficient + e.power - 1))) :
    negative = other ∧ d = e := by
  -- The places tell where the digits are cut, and the exponent then tells the power.
  obtain ⟨coefficient, power⟩ := d
  obtain ⟨coefficient', power'⟩ := e
  simp only [pointed, mk.injEq, Option.some.injEq] at same
  obtain ⟨sign, whole, fraction, places, exponent⟩ := same
  rw [places] at whole fraction
  obtain rfl : coefficient = coefficient' := by
    rw [← Nat.div_add_mod coefficient, whole, fraction, Nat.div_add_mod]
  obtain rfl : power = power' := by omega
  exact ⟨sign, rfl⟩

theorem scientific_injective {x y : Binary64} (same : scientific x = scientific y) : x = y := by
  obtain ⟨sign, digits⟩ := pointed_injective same
  exact Binary64.eq_of_shortest sign digits

end Numeral

namespace Value

theorem readString_units (acc : List Char) (c : Char) (cs : List Char) :
    readString ⟨acc, none, true⟩
      ((codeUnits c).flatMap (fun unit => '\\' :: 'u' :: Text.hexFour unit) ++ cs) =
        readString ⟨c :: acc, none, true⟩ cs := by
  have bounds := toNat_bounds c
  unfold codeUnits
  by_cases single : c.toNat < 0x10000
  · simp only [single, if_true, List.flatMap_cons, List.flatMap_nil, List.append_nil, List.cons_append]
    rw [readString_unit _ single, Partial.pushUnit_single]
  · have front : isHigh (0xD800 + (c.toNat - 0x10000) / 0x400) = true := by simp [isHigh]; omega
    have back : isLow (0xDC00 + (c.toNat - 0x10000) % 0x400) = true := by simp [isLow]; omega
    simp only [single, if_false, List.flatMap_cons, List.flatMap_nil, List.append_nil, List.cons_append,
      List.append_assoc]
    rw [readString_unit _ (by omega), readString_unit _ (by omega),
      Partial.pushUnit_pair acc c front back (by omega)]

theorem readString_canonicalEscape (acc : List Char) (c : Char) (cs : List Char) :
    readString ⟨acc, none, true⟩ (canonicalEscape c ++ cs) = readString ⟨c :: acc, none, true⟩ cs := by
  unfold canonicalEscape
  split
  iterate 7 (simp [readString, unescape?, Partial.push])
  rename_i unquoted unescaped _ _ _ _ _
  split
  · rename_i printable
    exact readString_itself _ unquoted unescaped printable.1 cs
  · exact readString_units acc c cs

def canonicalStyle : Style := ⟨canonicalEscape, canonicalForm⟩

theorem canonicalStyle_isReadable : canonicalStyle.IsReadable :=
  ⟨readString_canonicalEscape, .inr rfl⟩

def canonicalNumeral : Number → Numeral
  | .integer n => .ofInt n
  | .double x => .scientific x

theorem canonicalNumber_eq (n : Number) :
    canonicalNumber n = (canonicalNumeral n).text canonicalForm := by
  cases n with
  | integer n =>
      by_cases negative : n < 0 <;>
        simp [canonicalNumber, canonicalNumeral, Numeral.intText, Numeral.text, Numeral.ofInt, negative]
  | double x => rfl

theorem canonicalNumeral_isProper (n : Number) : (canonicalNumeral n).IsProper := by
  cases n with
  | integer n => exact Numeral.ofInt_isProper n
  | double x => exact Numeral.scientific_isProper x

theorem canonicalNumeral_injective {m n : Number} (same : canonicalNumeral m = canonicalNumeral n) :
    m = n := by
  -- Only a double has an exponent.
  have exponents := congrArg Numeral.exponent same
  cases m with
  | integer m =>
      cases n with
      | integer n => exact congrArg Number.integer (Numeral.ofInt_injective same)
      | double y => cases exponents
  | double x =>
      cases n with
      | integer n => cases exponents
      | double y => exact congrArg Number.double (Numeral.scientific_injective same)

mutual

def canonicalTree : Value → Tree
  | .null => .null
  | .bool b => .bool b
  | .number n => .number (canonicalNumeral n)
  | .string s => .string (some s)
  | .array items => .array (canonicalTrees items)
  | .object members => .object (canonicalMemberTrees members)

def canonicalTrees : List Value → List Tree
  | [] => []
  | item :: items => item.canonicalTree :: canonicalTrees items

def canonicalMemberTrees : List (String × Value) → List (Spelled × Tree)
  | [] => []
  | (key, value) :: members => (some key, value.canonicalTree) :: canonicalMemberTrees members

end

mutual

theorem canonical_eq_print : (v : Value) → v.canonical = v.canonicalTree.print canonicalStyle
  | .null => rfl
  | .bool true => rfl
  | .bool false => rfl
  | .number n => canonicalNumber_eq n
  | .string _ => rfl
  | .array [] => rfl
  | .array (item :: items) => by
      rw [canonical, canonical_eq_print item, canonicalItems_eq_print items]
      rfl
  | .object [] => rfl
  | .object ((key, value) :: members) => by
      rw [canonical, canonical_eq_print value, canonicalMembers_eq_print members]
      rfl

theorem canonicalItems_eq_print : (items : List Value) →
    canonicalItems items = Tree.printItems canonicalStyle (canonicalTrees items)
  | [] => rfl
  | item :: items => by
      rw [canonicalItems, canonical_eq_print item, canonicalItems_eq_print items]
      rfl

theorem canonicalMembers_eq_print : (members : List (String × Value)) →
    canonicalMembers members = Tree.printMembers canonicalStyle (canonicalMemberTrees members)
  | [] => rfl
  | (key, value) :: members => by
      rw [canonicalMembers, canonical_eq_print value, canonicalMembers_eq_print members]
      rfl

end

mutual

theorem canonicalTree_isPlain : (v : Value) → v.canonicalTree.IsPlain
  | .null => trivial
  | .bool _ => trivial
  | .number n => canonicalNumeral_isProper n
  | .string _ => rfl
  | .array items => canonicalTrees_arePlain items
  | .object members => canonicalMemberTrees_arePlain members

theorem canonicalTrees_arePlain : (items : List Value) → Tree.ArePlain (canonicalTrees items)
  | [] => trivial
  | item :: items => ⟨canonicalTree_isPlain item, canonicalTrees_arePlain items⟩

theorem canonicalMemberTrees_arePlain : (members : List (String × Value)) →
    Tree.MembersArePlain (canonicalMemberTrees members)
  | [] => trivial
  | (_, value) :: members =>
    ⟨rfl, canonicalTree_isPlain value, canonicalMemberTrees_arePlain members⟩

end

mutual

theorem canonicalTree_injective : (v w : Value) → v.canonicalTree = w.canonicalTree → v = w
  | .null, w, same => by
      cases w <;> first | rfl | cases same
  | .bool b, w, same => by
      cases w <;> cases same
      rfl
  | .number n, w, same => by
      cases w with
      | number m => exact congrArg number (canonicalNumeral_injective (Tree.number.inj same))
      | _ => cases same
  | .string s, w, same => by
      cases w <;> cases same
      rfl
  | .array items, w, same => by
      cases w with
      | array others => exact congrArg array (canonicalTrees_injective items others (Tree.array.inj same))
      | _ => cases same
  | .object members, w, same => by
      cases w with
      | object others =>
          exact congrArg object (canonicalMemberTrees_injective members others (Tree.object.inj same))
      | _ => cases same

theorem canonicalTrees_injective : (items others : List Value) →
    canonicalTrees items = canonicalTrees others → items = others
  | [], [], _ => rfl
  | [], _ :: _, same => by cases same
  | _ :: _, [], same => by cases same
  | item :: items, other :: others, same => by
      obtain ⟨first, rest⟩ := List.cons.inj same
      rw [canonicalTree_injective item other first, canonicalTrees_injective items others rest]

theorem canonicalMemberTrees_injective : (members others : List (String × Value)) →
    canonicalMemberTrees members = canonicalMemberTrees others → members = others
  | [], [], _ => rfl
  | [], _ :: _, same => by cases same
  | _ :: _, [], same => by cases same
  | (key, value) :: members, (name, other) :: others, same => by
      obtain ⟨first, rest⟩ := List.cons.inj same
      obtain ⟨keys, values⟩ := Prod.mk.inj first
      rw [Option.some.inj keys, canonicalTree_injective value other values,
        canonicalMemberTrees_injective members others rest]

end

theorem canonical_injective {v w : Value} (same : v.canonical = w.canonical) : v = w := by
  have read (v : Value) : Tree.ofChars? v.canonical = some v.canonicalTree := by
    rw [canonical_eq_print, Tree.ofChars?_print canonicalStyle_isReadable v.canonicalTree_isPlain]
  have trees := congrArg Tree.ofChars? same
  rw [read v, read w] at trees
  exact canonicalTree_injective v w (Option.some.inj trees)

theorem canonicalText_injective {v w : Value} (same : v.canonicalText = w.canonicalText) : v = w :=
  canonical_injective (String.ofList_injective same)

end Value

end Curtail.Json
