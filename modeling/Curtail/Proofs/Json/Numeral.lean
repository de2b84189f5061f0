import Curtail.Proofs.Text.Digits

namespace Curtail.Json

def Numeral.IsProper (n : Numeral) : Prop := n.fraction < 10 ^ n.places

def EndsNumber (rest : List Char) : Prop :=
  NoDigit rest ∧ ∀ c ∈ rest.head?, c ≠ '.' ∧ c ≠ 'e' ∧ c ≠ 'E'

theorem EndsNumber.nil : EndsNumber [] := by simp [EndsNumber, NoDigit]

theorem endsNumber_cons {c : Char} (rest : List Char) (digit : digit? c = none) (point : c ≠ '.')
    (small : c ≠ 'e') (capital : c ≠ 'E') : EndsNumber (c :: rest) := by
  refine ⟨?_, ?_⟩ <;> intro d h <;> obtain rfl := Option.some.inj h
  · exact digit
  · exact ⟨point, small, capital⟩

theorem ne_of_isDigit {c d : Char} (digit : c.isDigit = true) (other : d.isDigit = false) : c ≠ d := by
  rintro rfl
  rw [digit] at other
  cases other

theorem readWhole_of_ne_zero {c : Char} (nonzero : c ≠ '0') (cs : List Char) :
    readWhole (c :: cs) = match takeDigits 0 0 (c :: cs) with
      | (value, count, rest) => if count = 0 then none else some (value, rest) := by
  rw [readWhole]
  intro cs h
  exact nonzero (List.cons.inj h).1

theorem readExponentDigits_unmarked {c : Char} (unsigned : c ≠ '-') (unplussed : c ≠ '+')
    (cs : List Char) : readExponentDigits (c :: cs) = readPower false (c :: cs) := by
  rw [readExponentDigits]
  · intro cs h
    exact unsigned (List.cons.inj h).1
  · intro cs h
    exact unplussed (List.cons.inj h).1

theorem readNumeral_unsigned {c : Char} (unsigned : c ≠ '-') (cs : List Char) :
    readNumeral (c :: cs) = readUnsigned false (c :: cs) := by
  rw [readNumeral]
  intro cs h
  exact unsigned (List.cons.inj h).1

theorem readWhole_digits (n : Nat) {rest : List Char} (stop : NoDigit rest) :
    readWhole (Decimal.digits n ++ rest) = some (n, rest) := by
  unfold Decimal.digits
  by_cases zero : n = 0
  · subst zero
    cases rest with
    | nil => rfl
    | cons c cs => simp [readWhole, stop c rfl]
  · have front := head_toDigits_ne_zero (Nat.pos_of_ne_zero zero)
    have taken := takeDigits_spells (Spells.toDigits n) stop
    cases row : Nat.toDigits 10 n with
    | nil => exact absurd row Nat.toDigits_ne_nil
    | cons d ds =>
        rw [row] at front taken
        have nonzero : d ≠ '0' := fun same => front (congrArg some same)
        rw [List.cons_append] at taken ⊢
        rw [readWhole_of_ne_zero nonzero, taken]
        rfl

theorem readFraction_none {rest : List Char} (stop : ∀ c ∈ rest.head?, c ≠ '.') :
    readFraction rest = some (0, 0, rest) := by
  unfold readFraction
  split
  · exact absurd rfl (stop '.' rfl)
  · rfl

structure IsRow (ds : List Char) (n : Nat) : Prop where
  nonempty : ds ≠ []
  spells : Spells ds n

theorem IsRow.digits (n : Nat) : IsRow (Decimal.digits n) n :=
  ⟨Nat.toDigits_ne_nil, .toDigits n⟩

theorem IsRow.cons {ds : List Char} {n : Nat} (row : IsRow ds n) :
    ∃ c cs, ds = c :: cs ∧ c.isDigit = true := by
  obtain ⟨c, cs, rfl⟩ := List.exists_cons_of_ne_nil row.nonempty
  exact ⟨c, cs, rfl, row.spells.digits c List.mem_cons_self⟩

theorem readPower_row (negative : Bool) {ds rest : List Char} {n : Nat} (row : IsRow ds n)
    (stop : NoDigit rest) :
    readPower negative (ds ++ rest) = some (some (if negative then -(n : Int) else n), rest) := by
  simp only [readPower, takeDigits_spells row.spells stop]
  rw [if_neg (by simpa using row.nonempty)]

theorem readExponentDigits_row {ds rest : List Char} {n : Nat} (row : IsRow ds n)
    (stop : NoDigit rest) : readExponentDigits (ds ++ rest) = some (some (n : Int), rest) := by
  have power := readPower_row false row stop
  obtain ⟨c, cs, rfl, digit⟩ := row.cons
  rw [List.cons_append] at power ⊢
  rw [readExponentDigits_unmarked (ne_of_isDigit digit (by decide)) (ne_of_isDigit digit (by decide))]
  exact power

theorem readExponent_none {rest : List Char} (stop : ∀ c ∈ rest.head?, c ≠ 'e' ∧ c ≠ 'E') :
    readExponent rest = some (none, rest) := by
  unfold readExponent
  split
  · exact absurd rfl (stop 'e' rfl).1
  · exact absurd rfl (stop 'E' rfl).2
  · rfl

namespace Numeral

inductive FractionText : Nat → Nat → List Char → Prop
  | none : FractionText 0 0 []
  | digits {ds : List Char} {n : Nat} : IsRow ds n → FractionText n ds.length ('.' :: ds)

inductive ExponentText : Option Int → List Char → Prop
  | none : ExponentText none []
  | bare {mark : Char} {ds : List Char} {n : Nat} : mark = 'e' ∨ mark = 'E' → IsRow ds n →
      ExponentText (some n) (mark :: ds)
  | plus {mark : Char} {ds : List Char} {n : Nat} : mark = 'e' ∨ mark = 'E' → IsRow ds n →
      ExponentText (some n) (mark :: '+' :: ds)
  | minus {mark : Char} {ds : List Char} {n : Nat} : mark = 'e' ∨ mark = 'E' → IsRow ds n →
      ExponentText (some (-n)) (mark :: '-' :: ds)

theorem sign_digits_cons (negative : Bool) (n : Nat) (rest : List Char) :
    ∃ c cs, (if negative then ['-'] else []) ++ (Decimal.digits n ++ rest) = c :: cs ∧
      (c = '-' ∨ c.isDigit = true) := by
  cases negative with
  | true => exact ⟨'-', _, rfl, .inl rfl⟩
  | false =>
      obtain ⟨d, ds, row, digit⟩ := (IsRow.digits n).cons
      rw [row]
      exact ⟨d, _, rfl, .inr digit⟩

/-- Only before the point are zeros in front not allowed. -/
def IsText (n : Numeral) (cs : List Char) : Prop :=
  ∃ fraction exponent, FractionText n.fraction n.places fraction ∧ ExponentText n.exponent exponent ∧
    cs = (if n.negative then ['-'] else []) ++ (Decimal.digits n.whole ++ (fraction ++ exponent))

variable {cs rest : List Char}

theorem FractionText.read {n places : Nat} (text : FractionText n places cs) (stop : NoDigit rest)
    (pointless : ∀ c ∈ rest.head?, c ≠ '.') :
    readFraction (cs ++ rest) = some (n, places, rest) := by
  cases text with
  | none => exact readFraction_none pointless
  | digits row =>
      simp only [List.cons_append, readFraction, takeDigits_spells row.spells stop]
      rw [if_neg (by simpa using row.nonempty)]

theorem FractionText.stops {n places : Nat} (text : FractionText n places cs) (stop : NoDigit rest) :
    NoDigit (cs ++ rest) := by
  cases text with
  | none => exact stop
  | digits row => simp [NoDigit, digit?]

theorem ExponentText.read {e : Option Int} (text : ExponentText e cs) (ends : EndsNumber rest) :
    readExponent (cs ++ rest) = some (e, rest) := by
  cases text with
  | none => exact readExponent_none fun c member => (ends.2 c member).2
  | bare mark row =>
      rcases mark with rfl | rfl <;>
        simp [readExponent, readExponentDigits_row row ends.1]
  | plus mark row | minus mark row =>
      rcases mark with rfl | rfl <;>
        simp [readExponent, readExponentDigits, readPower_row _ row ends.1]

theorem ExponentText.stops {e : Option Int} (text : ExponentText e cs) (ends : EndsNumber rest) :
    NoDigit (cs ++ rest) ∧ ∀ c ∈ (cs ++ rest).head?, c ≠ '.' := by
  cases text with
  | none => exact ⟨ends.1, fun c member => (ends.2 c member).1⟩
  | bare mark | plus mark | minus mark => rcases mark with rfl | rfl <;> simp [NoDigit, digit?]

theorem IsText.read {n : Numeral} (text : n.IsText cs) (ends : EndsNumber rest) :
    readNumeral (cs ++ rest) = some (n, rest) := by
  obtain ⟨fraction, exponent, fractionText, exponentText, rfl⟩ := text
  obtain ⟨stop, pointless⟩ := exponentText.stops ends
  have unsigned : readUnsigned n.negative
      (Decimal.digits n.whole ++ (fraction ++ (exponent ++ rest))) = some (n, rest) := by
    simp only [readUnsigned, readWhole_digits n.whole (fractionText.stops stop),
      fractionText.read stop pointless, exponentText.read ends, Option.bind_eq_bind, Option.bind_some]
    rfl
  cases sign : n.negative with
  | true => simpa [readNumeral, sign] using unsigned
  | false =>
      obtain ⟨d, ds, row, digit⟩ := (IsRow.digits n.whole).cons
      rw [sign, row] at unsigned
      simp only [row, Bool.false_eq_true, if_false, List.nil_append, List.cons_append, List.append_assoc]
        at unsigned ⊢
      rw [readNumeral_unsigned (ne_of_isDigit digit (by decide))]
      exact unsigned

theorem IsText.cons {n : Numeral} (text : n.IsText cs) :
    ∃ c behind, cs = c :: behind ∧ (c = '-' ∨ c.isDigit = true) := by
  obtain ⟨fraction, exponent, -, -, rfl⟩ := text
  exact sign_digits_cons n.negative n.whole _

def fractionText (n : Numeral) : List Char :=
  if n.places = 0 then []
  else
    let ds := if n.fraction = 0 then [] else Decimal.digits n.fraction
    '.' :: (List.replicate (n.places - ds.length) '0' ++ ds)

def exponentText (form : ExponentForm) (n : Numeral) : List Char :=
  match n.exponent with
  | none => []
  | some e => form.text e

theorem text_eq (form : ExponentForm) (n : Numeral) : n.text form =
    (if n.negative then ['-'] else []) ++
      (Decimal.digits n.whole ++ (n.fractionText ++ n.exponentText form)) := by
  unfold text
  rewrite [List.append_assoc, List.append_assoc]
  rfl

theorem fractionText_spells {n : Numeral} (proper : n.IsProper) :
    FractionText n.fraction n.places n.fractionText := by
  obtain ⟨negative, whole, fraction, places, exponent⟩ := n
  simp only [IsProper, fractionText] at proper ⊢
  by_cases pointless : places = 0
  · subst pointless
    obtain rfl := Nat.lt_one_iff.mp proper
    exact .none
  rw [if_neg pointless]
  by_cases zero : fraction = 0
  · subst zero
    have row : IsRow (List.replicate places '0') 0 :=
      ⟨by simpa using pointless, by simpa using Spells.nil.zeros places⟩
    simpa using FractionText.digits row
  · have size : (Decimal.digits fraction).length ≤ places :=
      length_toDigits_le proper (Nat.pos_of_ne_zero pointless)
    have row : IsRow (List.replicate (places - (Decimal.digits fraction).length) '0' ++
        Decimal.digits fraction) fraction :=
      ⟨by simp [Decimal.digits], (Spells.toDigits fraction).zeros _⟩
    have text := FractionText.digits row
    rw [List.length_append, List.length_replicate, Nat.sub_add_cancel size] at text
    simpa only [zero, if_false] using text

theorem ExponentForm.text_spells {form : ExponentForm} (mark : form.mark = 'e' ∨ form.mark = 'E')
    (e : Int) : ExponentText (some e) (form.text e) := by
  have row := IsRow.digits e.natAbs
  unfold ExponentForm.text intText
  by_cases negative : e < 0
  · have size : -(e.natAbs : Int) = e := by omega
    have unsigned : ¬ 0 < e := by omega
    simp only [negative, unsigned, decide_false, Bool.and_false, if_true, Bool.false_eq_true, if_false,
      List.nil_append]
    have text := ExponentText.minus mark row
    rwa [size] at text
  · have size : (e.natAbs : Int) = e := by omega
    rw [if_neg negative]
    split
    · have text := ExponentText.plus mark row
      rwa [size] at text
    · have text := ExponentText.bare mark row
      rwa [size] at text

theorem exponentText_spells {form : ExponentForm} (mark : form.mark = 'e' ∨ form.mark = 'E')
    (n : Numeral) : ExponentText n.exponent (n.exponentText form) := by
  unfold exponentText
  cases n.exponent with
  | none => exact .none
  | some e => exact form.text_spells mark e

theorem text_isText {form : ExponentForm} (mark : form.mark = 'e' ∨ form.mark = 'E')
    {n : Numeral} (proper : n.IsProper) : n.IsText (n.text form) :=
  ⟨_, _, fractionText_spells proper, exponentText_spells mark n, text_eq form n⟩

theorem readNumeral_text (form : ExponentForm) (mark : form.mark = 'e' ∨ form.mark = 'E')
    {n : Numeral} (proper : n.IsProper) (ends : EndsNumber rest) :
    readNumeral (n.text form ++ rest) = some (n, rest) :=
  (text_isText mark proper).read ends

theorem text_cons (form : ExponentForm) (n : Numeral) :
    ∃ c cs, n.text form = c :: cs ∧ (c = '-' ∨ c.isDigit = true) := by
  rw [text_eq]
  exact sign_digits_cons n.negative n.whole _

theorem ofInt_isProper (n : Int) : (ofInt n).IsProper := by
  simp [IsProper, ofInt]

theorem ofNat_isProper (n : Nat) : (ofNat n).IsProper := by
  simp [IsProper, ofNat]

end Numeral

end Curtail.Json
