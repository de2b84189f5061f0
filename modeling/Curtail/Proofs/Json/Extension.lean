import Curtail.Proofs.Json.RoundTrip

namespace Curtail.Json

theorem skipSpace_extend {cs rest : List Char} {c : Char} (skipped : skipSpace cs = c :: rest)
    (more : List Char) : skipSpace (cs ++ more) = c :: (rest ++ more) := by
  unfold skipSpace at skipped ⊢
  rw [List.dropWhile_append, skipped]
  rfl

section Digits

variable {cs rest : List Char}

theorem takeDigits_extend {value count v n : Nat} (taken : takeDigits value count cs = (v, n, rest))
    (left : rest ≠ []) (more : List Char) :
    takeDigits value count (cs ++ more) = (v, n, rest ++ more) := by
  induction cs generalizing value count with
  | nil =>
      cases taken
      exact absurd rfl left
  | cons c cs ih =>
      simp only [takeDigits, List.cons_append] at taken ⊢
      cases digit : digit? c with
      | none =>
          rw [digit] at taken
          cases taken
          rfl
      | some d =>
          rw [digit] at taken
          exact ih taken

theorem readWhole_extend {n : Nat} (read : readWhole cs = some (n, rest)) (left : rest ≠ [])
    (more : List Char) : readWhole (cs ++ more) = some (n, rest ++ more) := by
  cases cs with
  | nil => cases read
  | cons c cs =>
      by_cases zero : c = '0'
      · subst zero
        cases cs with
        | nil =>
            cases read
            exact absurd rfl left
        | cons d cs =>
            simp only [readWhole, List.cons_append, List.head?_cons] at read ⊢
            split at read
            · cases read
            · cases read
              simp_all
      · rw [List.cons_append, readWhole_of_ne_zero zero]
        rw [readWhole_of_ne_zero zero] at read
        rcases taken : takeDigits 0 0 (c :: cs) with ⟨v, k, after⟩
        simp only [taken] at read
        split at read
        · cases read
        · rename_i counted
          cases read
          rw [← List.cons_append, takeDigits_extend taken left]
          exact if_neg counted

theorem readFraction_extend {n places : Nat} (read : readFraction cs = some (n, places, rest))
    (left : rest ≠ []) (more : List Char) :
    readFraction (cs ++ more) = some (n, places, rest ++ more) := by
  unfold readFraction at read
  split at read
  · rename_i cs
    rcases taken : takeDigits 0 0 cs with ⟨v, k, after⟩
    simp only [taken] at read
    split at read
    · cases read
    · rename_i counted
      cases read
      simp only [List.cons_append, readFraction, takeDigits_extend taken left, if_neg counted]
  · rename_i pointless
    cases read
    obtain ⟨c, cs, rfl⟩ := List.exists_cons_of_ne_nil left
    apply readFraction_none
    rintro _ ⟨⟩ rfl
    exact pointless cs rfl

theorem readPower_extend {negative : Bool} {e : Option Int}
    (read : readPower negative cs = some (e, rest)) (left : rest ≠ []) (more : List Char) :
    readPower negative (cs ++ more) = some (e, rest ++ more) := by
  unfold readPower at read ⊢
  rcases taken : takeDigits 0 0 cs with ⟨v, k, after⟩
  simp only [taken] at read
  split at read
  · cases read
  · rename_i counted
    cases read
    simp only [takeDigits_extend taken left, if_neg counted]

theorem readExponentDigits_extend {e : Option Int} (read : readExponentDigits cs = some (e, rest))
    (left : rest ≠ []) (more : List Char) :
    readExponentDigits (cs ++ more) = some (e, rest ++ more) := by
  unfold readExponentDigits at read
  split at read
  · exact readPower_extend read left more
  · exact readPower_extend read left more
  · rename_i unsigned unplussed
    cases cs with
    | nil => cases read
    | cons c cs =>
        have read := readPower_extend read left more
        rw [List.cons_append] at read ⊢
        rw [readExponentDigits_unmarked]
        · exact read
        · exact fun same => unsigned cs (same ▸ rfl)
        · exact fun same => unplussed cs (same ▸ rfl)

theorem readExponent_extend {e : Option Int} (read : readExponent cs = some (e, rest))
    (left : rest ≠ []) (more : List Char) : readExponent (cs ++ more) = some (e, rest ++ more) := by
  unfold readExponent at read
  split at read
  · exact readExponentDigits_extend read left more
  · exact readExponentDigits_extend read left more
  · rename_i small capital
    cases read
    obtain ⟨c, cs, rfl⟩ := List.exists_cons_of_ne_nil left
    apply readExponent_none
    rintro _ ⟨⟩
    refine ⟨?_, ?_⟩ <;> rintro rfl
    · exact small cs rfl
    · exact capital cs rfl

theorem readUnsigned_extend {negative : Bool} {n : Numeral}
    (read : readUnsigned negative cs = some (n, rest)) (left : rest ≠ []) (more : List Char) :
    readUnsigned negative (cs ++ more) = some (n, rest ++ more) := by
  simp only [readUnsigned, Option.bind_eq_bind, Option.bind_eq_some_iff] at read
  obtain ⟨⟨whole, cs₁⟩, first, ⟨fraction, places, cs₂⟩, second, ⟨exponent, cs₃⟩, third, read⟩ := read
  cases read
  -- A part that took all of the text would have left nothing to the parts after it.
  have left₂ : cs₂ ≠ [] := by
    rintro rfl
    cases third
    exact left rfl
  have left₁ : cs₁ ≠ [] := by
    rintro rfl
    cases second
    exact left₂ rfl
  simp only [readUnsigned, readWhole_extend first left₁, readFraction_extend second left₂,
    readExponent_extend third left, Option.bind_eq_bind, Option.bind_some]
  rfl

theorem readNumeral_extend {n : Numeral} (read : readNumeral cs = some (n, rest)) (left : rest ≠ [])
    (more : List Char) : readNumeral (cs ++ more) = some (n, rest ++ more) := by
  unfold readNumeral at read
  split at read
  · exact readUnsigned_extend read left more
  · rename_i unsigned
    cases cs with
    | nil => cases read
    | cons c cs =>
        have read := readUnsigned_extend read left more
        rw [List.cons_append] at read ⊢
        rw [readNumeral_unsigned]
        · exact read
        · exact fun same => unsigned cs (same ▸ rfl)

end Digits

theorem readString_extend {p : Partial} {cs rest : List Char} {s : Spelled}
    (read : readString p cs = some (s, rest)) (more : List Char) :
    readString p (cs ++ more) = some (s, rest ++ more) := by
  fun_induction readString p cs with
  | case1 => cases read
  | case2 p cs =>
      cases read
      rfl
  | case3 p a b c d cs n unit ih =>
      simp only [List.cons_append, readString, unit]
      exact ih read
  | case4 => cases read
  | case5 p e cs _ c meant ih =>
      rw [List.cons_append, List.cons_append, readString_escaped p meant]
      exact ih read
  | case6 => cases read
  | case7 => cases read
  | case8 p c cs unquoted _ _ allowed ih =>
      simp only [Bool.or_eq_true, decide_eq_true_eq, not_or, Nat.not_lt] at allowed
      rw [List.cons_append, readString_itself p unquoted allowed.2 allowed.1]
      exact ih read

theorem readNumeral_front {c : Char} {cs rest : List Char} {n : Numeral}
    (read : readNumeral (c :: cs) = some (n, rest)) : c = '-' ∨ c.isDigit = true := by
  unfold readNumeral at read
  split at read
  · rename_i same
    exact .inl (List.cons.inj same).1
  · simp only [readUnsigned, Option.bind_eq_bind, Option.bind_eq_some_iff] at read
    obtain ⟨⟨whole, after⟩, first, -⟩ := read
    refine .inr ?_
    by_cases zero : c = '0'
    · rw [zero]
      rfl
    · rw [readWhole_of_ne_zero zero, takeDigits] at first
      cases digit : digit? c with
      | none => simp [digit] at first
      | some d => exact isDigit_of_digit? digit

theorem isSpace_of_skipSpace {cs rest : List Char} {c : Char} (skipped : skipSpace cs = c :: rest) :
    isSpace c = false := by
  have front := List.head?_dropWhile_not isSpace cs
  unfold skipSpace at skipped
  rw [skipped] at front
  simpa using front

theorem readValue_of_skipSpace {cs rest : List Char} {c : Char} (skipped : skipSpace cs = c :: rest)
    (fuel : Nat) : readValue (fuel + 1) cs = readValue (fuel + 1) (c :: rest) := by
  rw [readValue, readValue, skipSpace_cons (isSpace_of_skipSpace skipped), skipped]

theorem exists_cons_of_readItems {fuel : Nat} {cs rest : List Char} {items : List Tree}
    (read : readItems fuel cs = some (items, rest)) : ∃ c behind, cs = c :: behind := by
  cases cs with
  | nil => rcases fuel with _ | _ | fuel <;> cases read
  | cons c behind => exact ⟨c, behind, rfl⟩

theorem exists_cons_of_readMembers {fuel : Nat} {cs rest : List Char} {members : List (Spelled × Tree)}
    (read : readMembers fuel cs = some (members, rest)) : ∃ c behind, cs = c :: behind := by
  cases cs with
  | nil => cases fuel <;> cases read
  | cons c behind => exact ⟨c, behind, rfl⟩

theorem exists_cons_of_readNumeral {cs rest : List Char} {n : Numeral}
    (read : readNumeral cs = some (n, rest)) : ∃ c behind, cs = c :: behind := by
  cases cs with
  | nil => cases read
  | cons c behind => exact ⟨c, behind, rfl⟩

theorem readValue_array {fuel : Nat} {cs behind rest : List Char} {c : Char}
    (bracket : skipSpace cs = '[' :: behind) (first : skipSpace behind = c :: rest) (unclosed : c ≠ ']') :
    readValue (fuel + 1) cs =
      (readItems fuel (c :: rest)).map fun (items, rest) => (.array items, rest) := by
  simp only [readValue, bracket, first]
  split
  · rename_i same
    exact absurd (List.cons.inj same).1 unclosed
  · rfl

theorem readValue_object {fuel : Nat} {cs behind rest : List Char} {c : Char}
    (brace : skipSpace cs = '{' :: behind) (first : skipSpace behind = c :: rest) (unclosed : c ≠ '}') :
    readValue (fuel + 1) cs =
      (readMembers fuel (c :: rest)).map fun (members, rest) => (.object members, rest) := by
  simp only [readValue, brace, first]
  split
  · rename_i same
    exact absurd (List.cons.inj same).1 unclosed
  · rfl

/-- A number is at its end only if what follows does not go on with it. -/
def Ends (t : Tree) (rest : List Char) : Prop :=
  ∀ n, t = .number n → rest ≠ []

theorem ends_of_skipSpace {t : Tree} {c : Char} {rest after : List Char}
    (skipped : skipSpace rest = c :: after) : Ends t rest := by
  rintro _ - rfl
  cases skipped

mutual

theorem readValue_extend {fuel most : Nat} {cs rest : List Char} {t : Tree}
    (read : readValue fuel cs = some (t, rest)) (ends : Ends t rest) (room : fuel ≤ most)
    (more : List Char) : readValue most (cs ++ more) = some (t, rest ++ more) := by
  match fuel, most with
  | 0, _ => cases read
  | fuel + 1, 0 => omega
  | fuel + 1, most + 1 =>
      have room : fuel ≤ most := Nat.le_of_succ_le_succ room
      unfold readValue at read
      split at read
      case h_1 | h_2 | h_3 =>
        rename_i skipped
        cases read
        simp only [readValue, skipSpace_extend skipped, List.cons_append]
      case h_4 skipped =>
        obtain ⟨⟨s, after⟩, quoted, same⟩ := Option.map_eq_some_iff.mp read
        cases same
        have further := readString_extend quoted more
        simp only [readValue, skipSpace_extend skipped, readQuoted, further, Option.map_some]
      case h_5 behind bracket =>
        split at read
        · rename_i closed
          cases read
          simp only [readValue, skipSpace_extend bracket, skipSpace_extend closed]
        · rename_i unclosed
          obtain ⟨⟨items, after⟩, found, same⟩ := Option.map_eq_some_iff.mp read
          cases same
          obtain ⟨c, cs', first⟩ := exists_cons_of_readItems found
          rw [first] at found
          have further : readItems most (c :: (cs' ++ more)) = _ := readItems_extend found room more
          rw [readValue_array (skipSpace_extend bracket more) (skipSpace_extend first more), further]
          · rfl
          · rintro rfl
            exact unclosed cs' first
      case h_6 behind brace =>
        split at read
        · rename_i closed
          cases read
          simp only [readValue, skipSpace_extend brace, skipSpace_extend closed]
        · rename_i unclosed
          obtain ⟨⟨members, after⟩, found, same⟩ := Option.map_eq_some_iff.mp read
          cases same
          obtain ⟨c, cs', first⟩ := exists_cons_of_readMembers found
          rw [first] at found
          have further : readMembers most (c :: (cs' ++ more)) = _ := readMembers_extend found room more
          rw [readValue_object (skipSpace_extend brace more) (skipSpace_extend first more), further]
          · rfl
          · rintro rfl
            exact unclosed cs' first
      case h_7 =>
        obtain ⟨⟨n, after⟩, found, same⟩ := Option.map_eq_some_iff.mp read
        cases same
        obtain ⟨c, cs', skipped⟩ := exists_cons_of_readNumeral found
        rw [skipped] at found
        have front := readNumeral_front found
        have further : readNumeral (c :: (cs' ++ more)) = _ :=
          readNumeral_extend found (ends n rfl) more
        rw [readValue_of_skipSpace (skipSpace_extend skipped more), readValue_front most front, further]
        rfl

theorem readItems_extend {fuel most : Nat} {cs rest : List Char} {items : List Tree}
    (read : readItems fuel cs = some (items, rest)) (room : fuel ≤ most)
    (more : List Char) : readItems most (cs ++ more) = some (items, rest ++ more) := by
  match fuel, most with
  | 0, _ => cases read
  | fuel + 1, 0 => omega
  | fuel + 1, most + 1 =>
      have room : fuel ≤ most := Nat.le_of_succ_le_succ room
      unfold readItems at read
      split at read
      · cases read
      · rename_i item after found
        split at read
        · rename_i closed
          cases read
          have further := readValue_extend found (ends_of_skipSpace closed) room more
          simp only [readItems, further, skipSpace_extend closed]
        · rename_i comma
          obtain ⟨⟨others, last⟩, next, same⟩ := Option.map_eq_some_iff.mp read
          cases same
          have further := readValue_extend found (ends_of_skipSpace comma) room more
          have remaining := readItems_extend next room more
          simp only [readItems, further, skipSpace_extend comma, remaining, Option.map_some]
        · cases read

theorem readMembers_extend {fuel most : Nat} {cs rest : List Char} {members : List (Spelled × Tree)}
    (read : readMembers fuel cs = some (members, rest)) (room : fuel ≤ most)
    (more : List Char) : readMembers most (cs ++ more) = some (members, rest ++ more) := by
  match fuel, most with
  | 0, _ => cases read
  | fuel + 1, 0 => omega
  | fuel + 1, most + 1 =>
      have room : fuel ≤ most := Nat.le_of_succ_le_succ room
      unfold readMembers at read
      split at read
      · rename_i quote
        split at read
        · cases read
        · rename_i key after named
          split at read
          · rename_i colon
            split at read
            · cases read
            · rename_i value behind found
              have quoted : readQuoted _ = _ := readString_extend named more
              split at read
              · rename_i closed
                cases read
                have further := readValue_extend found (ends_of_skipSpace closed) room more
                simp only [readMembers, skipSpace_extend quote, quoted, skipSpace_extend colon, further,
                  skipSpace_extend closed]
              · rename_i comma
                obtain ⟨⟨others, last⟩, next, same⟩ := Option.map_eq_some_iff.mp read
                cases same
                have further := readValue_extend found (ends_of_skipSpace comma) room more
                have remaining := readMembers_extend next room more
                simp only [readMembers, skipSpace_extend quote, quoted, skipSpace_extend colon, further,
                  skipSpace_extend comma, remaining, Option.map_some]
              · cases read
          · cases read
      · cases read

end

namespace Tree

variable {style : Style}

theorem ends_of_brace {fuel : Nat} {cs rest : List Char} {t : Tree}
    (read : readValue fuel ('{' :: cs) = some (t, rest)) : Ends t rest := by
  rintro n rfl
  cases fuel with
  | zero => cases read
  | succ fuel =>
      simp only [readValue, skipSpace_cons (c := '{') (by decide)] at read
      split at read
      · cases read
      · obtain ⟨_, _, same⟩ := Option.map_eq_some_iff.mp read
        cases same

theorem print_object (style : Style) (members : List (Spelled × Tree)) :
    ∃ cs, (object members).print style = '{' :: cs := by
  cases members <;> exact ⟨_, rfl⟩

theorem ofChars?_cut (readable : style.IsReadable) {members : List (Spelled × Tree)}
    (plain : (object members).IsPlain) {cs more : List Char}
    (cut : (object members).print style = cs ++ more) (lost : more ≠ []) : ofChars? cs = none := by
  obtain ⟨text, opened⟩ := print_object style members
  unfold ofChars?
  split
  · rename_i t rest read
    have ends : Ends t rest := by
      cases cs with
      | nil => cases read
      | cons c cs =>
          obtain ⟨rfl, -⟩ := List.cons.inj (opened.symm.trans cut)
          exact ends_of_brace read
    have room : 2 * cs.length + 2 ≤ 2 * ((object members).print style).length + 2 := by
      rw [cut, List.length_append]
      omega
    have whole := readValue_print readable (object members) plain _ [] (Nat.le_add_right _ 2) .nil
    -- The part would be read alone as what the whole text is read as, with nothing left of that.
    have further := readValue_extend read ends room more
    rw [← cut] at further
    rw [List.append_nil, further] at whole
    obtain ⟨-, nothing⟩ := Prod.mk.inj (Option.some.inj whole)
    exact absurd (List.append_eq_nil_iff.mp nothing).2 lost
  · rfl

theorem ofChars?_further (readable : style.IsReadable) {t : Tree} (plain : t.IsPlain) {c : Char}
    (solid : isSpace c = false) {rest : List Char} (ends : EndsNumber (c :: rest)) :
    ofChars? (t.print style ++ c :: rest) = none := by
  have room : 2 * (t.print style).length ≤ 2 * (t.print style ++ c :: rest).length + 2 := by
    rw [List.length_append]
    omega
  have front : readFront? (t.print style ++ c :: rest) = some (t, c :: rest) :=
    readValue_print readable t plain _ _ room ends
  simp [ofChars?, front, skipSpace_cons solid]

end Tree

end Curtail.Json
