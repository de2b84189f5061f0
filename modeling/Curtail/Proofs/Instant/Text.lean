import Curtail.Proofs.Text.Digits
import Curtail.Proofs.Instant.Calendar

namespace Curtail.Instant

def day (t : Instant) : Day := Day.ofNumber (t.seconds.fdiv 86400)

def HasFourDigitYear (t : Instant) : Prop := 0 ≤ t.day.year ∧ t.day.year ≤ 9999

instance (t : Instant) : Decidable t.HasFourDigitYear :=
  inferInstanceAs (Decidable (_ ∧ _))

theorem toList_padded (width n : Nat) : (padded width n).toList =
    List.replicate (width - (Nat.toDigits 10 n).length) '0' ++ Nat.toDigits 10 n := by
  simp [padded, Text.padStart, Nat.repr_eq_ofList_toDigits]

theorem padded_spells (width n : Nat) : Spells (padded width n).toList n := by
  rw [toList_padded]
  exact (Spells.toDigits n).zeros _

theorem length_padded (width : Nat) {n : Nat} (small : n < 10 ^ width) (positive : 0 < width) :
    (padded width n).toList.length = width := by
  have := length_toDigits_le small positive
  rw [toList_padded, List.length_append, List.length_replicate]
  omega

theorem not_blank_of_isDigit {c : Char} (digit : c.isDigit = true) : Text.isBlank c = false := by
  simp only [Char.isDigit, Bool.and_eq_true, decide_eq_true_eq, UInt32.le_iff_toNat_le] at digit
  simp only [Text.isBlank, Char.toNat, Bool.or_eq_false_iff, Bool.and_eq_false_iff, beq_eq_false_iff_ne,
    decide_eq_false_iff_not]
  have low : 48 ≤ c.val.toNat := digit.1
  have high : c.val.toNat ≤ 57 := digit.2
  omega

theorem trimStart_of_isDigit {ds : List Char} (nonempty : ds ≠ [])
    (digits : ∀ c ∈ ds, c.isDigit = true) (rest : List Char) :
    Text.trimStart (ds ++ rest) = ds ++ rest := by
  cases ds with
  | nil => exact absurd rfl nonempty
  | cons d ds =>
    simp [Text.trimStart, not_blank_of_isDigit (digits d List.mem_cons_self)]

theorem readNumber_padded (width : Nat) {n : Nat} (small : n < 10 ^ width) (positive : 0 < width)
    (rest : List Char) : readNumber width ((padded width n).toList ++ rest) = some (n, rest) := by
  have spells := padded_spells width n
  have length := length_padded _ small positive
  have nonempty : (padded width n).toList ≠ [] := by
    intro h
    rw [h] at length
    simp only [List.length_nil] at length
    omega
  unfold readNumber
  rw [trimStart_of_isDigit nonempty spells.digits, takeDigits_spells spells (Or.inl length)]
  simp only [length]
  rw [if_neg (by omega)]

theorem readMark_cons (mark : Char) (plain : Text.isBlank mark = false) (rest : List Char) :
    readMark mark (mark :: rest) = some rest := by
  simp [readMark, Text.trimStart, plain]

theorem readYear_padded {n : Nat} (small : n < 10000) (rest : List Char) :
    readYear ((padded 4 n).toList ++ rest) = some ((n : Int), rest) := by
  have digits := (padded_spells 4 n).digits
  have length := length_padded 4 small (by decide)
  have number := readNumber_padded 4 small (by decide) rest
  cases row : (padded 4 n).toList with
  | nil => simp [row] at length
  | cons d ds =>
    rw [row] at digits number
    have digit := digits d List.mem_cons_self
    have plain := trimStart_of_isDigit (by simp) digits rest
    rw [List.cons_append] at plain number ⊢
    unfold readYear
    simp only [plain]
    split
    · rename_i h
      rw [(List.cons.inj h).1] at digit
      exact absurd digit (by decide)
    · rename_i h
      rw [(List.cons.inj h).1] at digit
      exact absurd digit (by decide)
    · rw [number]
      rfl

theorem takeDigits_padded (width n : Nat) (mark : Char) (other : digit? mark = none)
    (rest : List Char) :
    takeDigits 0 0 ((padded width n).toList ++ mark :: rest).length ((padded width n).toList ++ mark :: rest) =
      (n, (padded width n).toList.length, mark :: rest) := by
  apply takeDigits_spells (padded_spells width n)
  refine .inr ⟨by simp, ?_⟩
  intro c first
  obtain rfl := Option.some.inj first
  exact other

theorem readYear_yearText (year : Int) (rest : List Char) :
    readYear ((yearText year).toList ++ '-' :: rest) = some (year, '-' :: rest) := by
  unfold yearText
  by_cases fourDigits : 0 ≤ year ∧ year ≤ 9999
  · have same : ((year.natAbs : Nat) : Int) = year := by omega
    rw [if_pos fourDigits, readYear_padded (by omega), same]
  · have filled : (padded 4 year.natAbs).toList.length ≠ 0 := by
      have least : 0 < (Nat.toDigits 10 year.natAbs).length :=
        List.length_pos_iff.mpr Nat.toDigits_ne_nil
      rw [toList_padded, List.length_append]
      omega
    have taken := takeDigits_padded 4 year.natAbs '-' rfl rest
    rw [if_neg fourDigits]
    by_cases negative : year < 0
    · have same : -1 * ((year.natAbs : Nat) : Int) = year := by omega
      have plain (cs : List Char) : Text.trimStart ('-' :: cs) = '-' :: cs := rfl
      have text : ("-" ++ padded 4 year.natAbs).toList ++ '-' :: rest =
          '-' :: ((padded 4 year.natAbs).toList ++ '-' :: rest) := by simp
      rw [if_pos negative, text]
      simp only [readYear, plain, taken, if_neg filled, same]
    · have same : 1 * ((year.natAbs : Nat) : Int) = year := by omega
      have plain (cs : List Char) : Text.trimStart ('+' :: cs) = '+' :: cs := rfl
      have text : ("+" ++ padded 4 year.natAbs).toList ++ '-' :: rest =
          '+' :: ((padded 4 year.natAbs).toList ++ '-' :: rest) := by simp
      rw [if_neg negative, text]
      simp only [readYear, plain, taken, if_neg filled, same]

theorem toList_dateText (t : Instant) :
    t.dateText.toList = (yearText t.day.year).toList ++
      '-' :: ((padded 2 t.day.month).toList ++ '-' :: (padded 2 t.day.day).toList) := by
  change (yearText t.day.year ++ "-" ++ padded 2 t.day.month ++ "-" ++ padded 2 t.day.day).toList = _
  simp

theorem year_of_inRange {t : Instant} (within : t.inRange = true) :
    Day.firstYear ≤ t.day.year ∧ t.day.year ≤ Day.lastYear := by
  simp only [inRange, Bool.and_eq_true, decide_eq_true_eq] at within
  apply Day.year_bounds
  all_goals
    rw [Int.fdiv_eq_ediv]
    omega

theorem readDay_dateText {t : Instant} (within : t.inRange = true) (rest : List Char) :
    readDay (t.dateText.toList ++ rest) = some (t.day, rest) := by
  have existing : t.day.exists? = true := Day.ofNumber_exists _
  have known := existing
  simp only [Day.exists?, Bool.and_eq_true, decide_eq_true_eq] at known
  have last := Day.lastOf_le t.day.year t.day.month
  have range := year_of_inRange within
  have readsYear := readYear_yearText t.day.year
  have readsMonth := readNumber_padded 2 (n := t.day.month) (by omega) (by decide)
  have readsDay := readNumber_padded 2 (n := t.day.day) (by omega) (by decide)
  have readsMark := readMark_cons '-' (by decide)
  rw [toList_dateText]
  simp [readDay, readsYear, readsMonth, readsDay, readsMark, existing, range]

theorem toList_clockText (t : Instant) : t.clockText.toList =
    (padded 2 ((t.seconds % 86400).natAbs / 3600)).toList ++
      ':' :: ((padded 2 ((t.seconds % 86400).natAbs / 60 % 60)).toList ++
        ':' :: (padded 2 ((t.seconds % 86400).natAbs % 60 + t.nanos / 1000000000)).toList) := by
  simp [clockText]

theorem readFraction_padded {count n : Nat} (positive : 0 < count) (most : count ≤ 9)
    (small : n < 10 ^ count) {rest : List Char} (stop : ∀ c ∈ rest.head?, digit? c = none) :
    readFraction ('.' :: ((padded count n).toList ++ rest)) = some (n * 10 ^ (9 - count), rest) := by
  have length := length_padded _ small positive
  have whole : rest.dropWhile (fun c => (digit? c).isSome) = rest := by
    cases rest with
    | nil => rfl
    | cons c cs => simp [stop c rfl]
  have taken := @takeDigits_spells _ rest n 9 (padded_spells count n) (by
    rw [length]
    rcases Nat.lt_or_eq_of_le most with less | equal
    · exact Or.inr ⟨less, stop⟩
    · exact Or.inl equal)
  simp only [readFraction, taken, length, whole]
  rw [if_neg (by omega)]
  rfl

theorem toList_point (digits : String) (rest : List Char) :
    ("." ++ digits).toList ++ rest = '.' :: (digits.toList ++ rest) := by
  simp

theorem readFraction_fractionText (t : Instant) :
    readFraction (t.fractionText.toList ++ ['Z']) = some (t.nanos % 1000000000, ['Z']) := by
  have stop : ∀ c ∈ ['Z'].head?, digit? c = none := by
    intro c last
    obtain rfl : 'Z' = c := Option.some.inj last
    rfl
  have bound : t.nanos % 1000000000 < 1000000000 := Nat.mod_lt _ (by omega)
  simp only [fractionText]
  generalize t.nanos % 1000000000 = n at bound ⊢
  by_cases none : n = 0
  · rw [if_pos none, none]
    rfl
  rw [if_neg none]
  by_cases millis : n % 1000000 = 0
  · rw [if_pos millis, toList_point, readFraction_padded (by decide) (by decide) (by omega) stop]
    simp only [Option.some.injEq, Prod.mk.injEq, and_true]
    omega
  rw [if_neg millis]
  by_cases micros : n % 1000 = 0
  · rw [if_pos micros, toList_point, readFraction_padded (by decide) (by decide) (by omega) stop]
    simp only [Option.some.injEq, Prod.mk.injEq, and_true]
    omega
  rw [if_neg micros, toList_point, readFraction_padded (by decide) (by decide) (by omega) stop]
  simp only [Option.some.injEq, Prod.mk.injEq, and_true]
  omega

theorem readClock_text (t : Instant) :
    readClock (t.clockText.toList ++ (t.fractionText.toList ++ ['Z'])) =
      some ((t.seconds % 86400).natAbs, t.nanos, ['Z']) := by
  have small := t.nanos_lt
  have leap := t.leap
  have bound : (t.seconds % 86400).natAbs < 86400 := by omega
  have minute : (t.seconds % 86400).natAbs % 60 = (t.seconds % 60).natAbs := by omega
  rw [toList_clockText]
  have readsFraction := readFraction_fractionText t
  generalize (t.seconds % 86400).natAbs = ofDay at *
  have readsHour := readNumber_padded 2 (n := ofDay / 3600) (by omega) (by decide)
  have readsMinute := readNumber_padded 2 (n := ofDay / 60 % 60) (by omega) (by decide)
  have readsSecond := readNumber_padded 2 (n := ofDay % 60 + t.nanos / 1000000000) (by omega)
    (by decide)
  have readsMark := readMark_cons ':' (by decide)
  have hour : ofDay / 3600 < 24 := by omega
  have ofHour : ofDay / 60 % 60 < 60 := by omega
  have second : ofDay % 60 + t.nanos / 1000000000 ≤ 60 := by omega
  simp only [readClock, List.append_assoc, List.cons_append, readsHour, readsMinute, readsSecond,
    readsMark, readsFraction, Option.bind_eq_bind, Option.bind_some, hour, ofHour, second, decide_true,
    Bool.and_self, if_true]
  by_cases late : 1000000000 ≤ t.nanos
  · have last := leap late
    rw [if_pos (by omega)]
    simp only [Option.some.injEq, Prod.mk.injEq, and_true]
    omega
  · rw [if_neg (by omega)]
    simp only [Option.some.injEq, Prod.mk.injEq, and_true]
    omega

theorem inRange_of_fourDigits {t : Instant} (fourDigits : t.HasFourDigitYear) : t.inRange = true := by
  have bounds := Day.number_bounds fourDigits.1 fourDigits.2
  have first : (⟨Day.firstYear, 1, 1⟩ : Day).toNumber = -96465292 := by decide
  have past : (⟨Day.lastYear + 1, 1, 1⟩ : Day).toNumber = 95026237 := by decide
  simp only [inRange, first, past, Bool.and_eq_true, decide_eq_true_eq]
  rw [Int.fdiv_eq_ediv] at bounds
  omega

theorem ofParts?_self (t : Instant) : ofParts? t.seconds t.nanos = some t :=
  dif_pos ⟨t.nanos_lt, t.leap⟩

theorem toList_text (t : Instant) : t.text.toList =
    t.dateText.toList ++ 'T' :: (t.clockText.toList ++ (t.fractionText.toList ++ ['Z'])) := by
  simp [text]

theorem ofText?_text {t : Instant} (within : t.inRange = true) : ofText? t.text = some t := by
  obtain ⟨ofDay, same⟩ : ∃ ofDay, (t.seconds % 86400).natAbs = ofDay := ⟨_, rfl⟩
  have seconds : t.day.toNumber * 86400 + (ofDay : Int) - 0 = t.seconds := by
    rw [day, Day.toNumber_ofNumber, Int.fdiv_eq_ediv]
    omega
  have separated (rest : List Char) : readSeparator ('T' :: rest) = some rest := rfl
  have offset : readOffset ['Z'] = some (0, []) := rfl
  have ended : ¬Text.trimStart [] ≠ [] := not_not_intro rfl
  unfold ofText? ofChars?
  rw [toList_text, readDay_dateText within]
  simp only [Option.bind_eq_bind, Option.bind_some, separated, readClock_text, same, offset]
  rw [if_neg ended]
  simp only [Option.bind_some, seconds, ofParts?_self]
  rw [if_pos within]

theorem toList_textToSecond (t : Instant) : t.textToSecond.toList =
    t.dateText.toList ++ 'T' :: (t.clockText.toList ++ ['Z']) := by
  simp [textToSecond]

theorem eq_of_padded {width m n : Nat} {rest others : List Char} (positive : 0 < width)
    (small : m < 10 ^ width) (small' : n < 10 ^ width)
    (same : (padded width m).toList ++ rest = (padded width n).toList ++ others) :
    m = n ∧ rest = others := by
  have read := congrArg (readNumber width) same
  rw [readNumber_padded width small positive, readNumber_padded width small' positive] at read
  exact Prod.mk.inj (Option.some.inj read)

theorem eq_of_dateText {t u : Instant} {rest others : List Char}
    (same : t.dateText.toList ++ rest = u.dateText.toList ++ others) :
    t.day = u.day ∧ rest = others := by
  have bounds (t : Instant) : t.day.month < 10 ^ 2 ∧ t.day.day < 10 ^ 2 := by
    have existing : t.day.exists? = true := Day.ofNumber_exists _
    have last := Day.lastOf_le t.day.year t.day.month
    simp only [Day.exists?, Bool.and_eq_true, decide_eq_true_eq] at existing
    omega
  simp only [toList_dateText, List.append_assoc, List.cons_append] at same
  have read := congrArg readYear same
  rw [readYear_yearText, readYear_yearText] at read
  obtain ⟨year, same⟩ := Prod.mk.inj (Option.some.inj read)
  obtain ⟨month, same⟩ :=
    eq_of_padded (by decide) (bounds t).1 (bounds u).1 (List.cons.inj same).2
  obtain ⟨day, same⟩ := eq_of_padded (by decide) (bounds t).2 (bounds u).2 (List.cons.inj same).2
  have whole : (⟨t.day.year, t.day.month, t.day.day⟩ : Day) = ⟨u.day.year, u.day.month, u.day.day⟩ := by
    rw [year, month, day]
  exact ⟨whole, same⟩

theorem eq_of_clockText {t u : Instant} {rest others : List Char}
    (same : t.clockText.toList ++ rest = u.clockText.toList ++ others) :
    t.seconds % 86400 = u.seconds % 86400 ∧ t.nanos / 1000000000 = u.nanos / 1000000000 ∧
      rest = others := by
  have bounds (t : Instant) : (t.seconds % 86400).natAbs < 86400 ∧ t.nanos / 1000000000 < 2 := by
    have := t.nanos_lt
    omega
  have leap (t : Instant) : t.nanos / 1000000000 = 0 ∨ (t.seconds % 86400).natAbs % 60 = 59 := by
    have := t.leap
    omega
  have small := bounds t
  have small' := bounds u
  simp only [toList_clockText, List.append_assoc, List.cons_append] at same
  obtain ⟨hour, same⟩ := eq_of_padded (by decide) (by omega) (by omega) same
  obtain ⟨minute, same⟩ := eq_of_padded (by decide) (by omega) (by omega) (List.cons.inj same).2
  obtain ⟨second, same⟩ := eq_of_padded (by decide) (by omega) (by omega) (List.cons.inj same).2
  -- A leap second is told from the one before it by its number, which no other second has.
  have last := leap t
  have last' := leap u
  exact ⟨by omega, by omega, same⟩

theorem wholeSecond_eq_of_text {t u : Instant} (same : t.textToSecond = u.textToSecond) :
    t.wholeSecond = u.wholeSecond := by
  have texts := congrArg String.toList same
  rw [toList_textToSecond, toList_textToSecond] at texts
  obtain ⟨day, clocks⟩ := eq_of_dateText texts
  obtain ⟨ofDay, leap, -⟩ := eq_of_clockText (List.cons.inj clocks).2
  have number := congrArg Day.toNumber day
  unfold Instant.day at number
  rw [Day.toNumber_ofNumber, Day.toNumber_ofNumber, Int.fdiv_eq_ediv, Int.fdiv_eq_ediv] at number
  have seconds : t.seconds = u.seconds := by omega
  have late : t.nanos < 1000000000 ↔ u.nanos < 1000000000 := by omega
  by_cases regular : t.nanos < 1000000000
  · rw [wholeSecond, wholeSecond, if_pos regular, if_pos (late.mp regular), seconds]
  · have minute := u.leap (by omega)
    have parts : ofParts? u.seconds 1000000000 =
        some ⟨u.seconds, 1000000000, by decide, fun _ => minute⟩ :=
      dif_pos ⟨by decide, fun _ => minute⟩
    rw [wholeSecond, wholeSecond, if_neg regular, if_neg (mt late.mpr regular), seconds, parts]

end Curtail.Instant
