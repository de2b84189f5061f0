import Curtail.Digest.ProofHash
import Curtail.Proofs.Json.Codec
import Curtail.Proofs.Text.Blank

namespace Curtail.ProofHash

open Json

def isLowerHex (c : Char) : Bool := c.isDigit || ('a' ≤ c && c ≤ 'f')

/-- Whether the digits are as those of a computed hash. -/
def IsPlain (h : ProofHash) : Prop :=
  h.digits.toList.length = 64 ∧ h.digits.toList.all isLowerHex = true

instance (h : ProofHash) : Decidable h.IsPlain :=
  inferInstanceAs (Decidable (_ ∧ _))

theorem isLowerHex_iff {c : Char} :
    isLowerHex c = true ↔ 48 ≤ c.toNat ∧ c.toNat ≤ 57 ∨ 97 ≤ c.toNat ∧ c.toNat ≤ 102 := by
  simp [isLowerHex, Char.isDigit, Char.le_def, UInt32.le_iff_toNat_le]

theorem toLower_of_isLowerHex {c : Char} (plain : isLowerHex c = true) : c.toLower = c := by
  have bounds := isLowerHex_iff.mp plain
  have lowered := Text.toNat_toLower c
  exact Char.toNat_inj.mp (by omega)

theorem isSome_hexDigit?_iff {c : Char} :
    (Text.hexDigit? c).isSome = true ↔ isLowerHex c.toLower = true := by
  have lowered := Text.toNat_toLower c
  have digit : (Text.hexDigit? c).isSome = true ↔ 48 ≤ c.toNat ∧ c.toNat ≤ 57 ∨
      97 ≤ c.toNat ∧ c.toNat ≤ 102 ∨ 65 ≤ c.toNat ∧ c.toNat ≤ 70 := by
    unfold Text.hexDigit?
    grind
  rw [digit, isLowerHex_iff]
  omega

theorem all_hexDigit?_iff {cs : List Char} :
    cs.all (fun c => (Text.hexDigit? c).isSome) = true ↔ (Text.lower cs).all isLowerHex = true := by
  simp only [Text.lower, List.all_map, List.all_eq_true, isSome_hexDigit?_iff, Function.comp_apply]

theorem lower_of_isLowerHex {cs : List Char} (plain : cs.all isLowerHex = true) : Text.lower cs = cs := by
  induction cs with
  | nil => rfl
  | cons c cs ih =>
      obtain ⟨first, others⟩ := by simpa using plain
      have rest := ih (by simpa using others)
      unfold Text.lower at rest ⊢
      rw [List.map_cons, rest, toLower_of_isLowerHex first]

theorem hexDigit_isLowerHex {n : Nat} (small : n < 16) : isLowerHex (Text.hexDigit n) = true := by
  have all : ∀ k : Fin 16, isLowerHex (Text.hexDigit k.val) = true := by decide
  exact all ⟨n, small⟩

theorem ofBytes_isPlain (bytes : Bytes) : (ofBytes bytes).IsPlain := by
  have length : (Sha256.hash bytes).length = 32 := rfl
  generalize hashed : Sha256.hash bytes = hash at length
  refine ⟨?_, ?_⟩
  · simp [ofBytes, Bytes.toHex, hashed, List.map_const', length]
  · simp only [ofBytes, Bytes.toHex, hashed, String.toList_ofList, List.all_flatMap, List.all_eq_true]
    intro b _
    have small := b.toNat_lt
    simp [hexDigit_isLowerHex (show b.toNat / 16 < 16 by omega),
      hexDigit_isLowerHex (show b.toNat % 16 < 16 by omega)]

theorem toList_text (h : ProofHash) : h.text.toList = scheme.toList ++ h.digits.toList := by
  simp [text]

theorem lower_scheme : Text.lower scheme.toList = scheme.toList := by decide

theorem lower_text {h : ProofHash} (plain : h.IsPlain) : Text.lower h.text.toList = h.text.toList := by
  rw [toList_text, Text.lower, List.map_append]
  exact congrArg₂ _ lower_scheme (lower_of_isLowerHex plain.2)

theorem isScheme_of_lower {name : List Char} (same : Text.lower name = scheme.toList) :
    isScheme name = true := by
  have long : name.length = 7 := by
    rw [← List.length_map (f := Char.toLower)]
    exact congrArg List.length same
  match name, long with
  | [_, _, _, _, _, _, _], _ =>
    simp only [Text.lower, List.map_cons, List.map_nil] at same
    rw [isScheme, ← same]
    simp [foldsTo]
    decide

/-- A long s takes two bytes, so that the colon stands at the eighth. -/
theorem isScheme_cases {name : List Char} (named : isScheme name = true) :
    Text.lower name = scheme.toList ∨
      ∃ others, name = 'ſ' :: others ++ [':'] ∧ String.utf8Len others = 5 := by
  have long : name.length = 7 := by
    simp only [isScheme, Bool.and_eq_true, decide_eq_true_eq] at named
    exact named.1
  match name, long with
  | [s, h, a, two, five, six, colon], _ =>
    simp [isScheme, foldsTo, scheme] at named
    obtain ⟨-, first | rfl, others⟩ := named
    · exact .inl (by simp [Text.lower, scheme, first, others])
    · right
      have mark := Text.toNat_toLower colon
      rw [others.2.2.2.2.2, show (':' : Char).toNat = 58 from rfl] at mark
      obtain rfl : colon = ':' := Char.toNat_inj.mp (show colon.toNat = 58 by omega)
      refine ⟨[h, a, two, five, six], rfl, ?_⟩
      rw [← Text.utf8Len_lower]
      simp [Text.lower, others]
      decide

theorem toText?_drop {value : String} {front kept : List Char} (parts : value.toList = front ++ kept)
    (width : String.utf8Len front = 7) :
    Bytes.toText? ((Bytes.ofText value).drop 7) = some (String.ofList kept) := by
  have whole : value = String.ofList front ++ String.ofList kept := by
    rw [← String.ofList_append, ← parts, String.ofList_toList]
  have measured : (Bytes.ofText (String.ofList front)).length = 7 := by
    rw [Bytes.length_ofText, String.utf8ByteSize_ofList, width]
  rw [whole, Bytes.ofText_append, List.drop_left' measured, Bytes.toText?_ofText]

theorem parse_of_lower {h : ProofHash} {value : String} (plain : h.IsPlain)
    (same : Text.lower value.toList = h.text.toList) : parse value = .ok h := by
  rw [toList_text] at same
  have name : Text.lower (value.toList.take 7) = scheme.toList := by
    rw [Text.lower, List.map_take]
    exact (congrArg _ same).trans (List.take_left' (by decide))
  have digits : Text.lower (value.toList.drop 7) = h.digits.toList := by
    rw [Text.lower, List.map_drop]
    exact (congrArg _ same).trans (List.drop_left' (by decide))
  have width : String.utf8Len (value.toList.take 7) = 7 := by
    rw [← Text.utf8Len_lower, name]
    decide
  have length : (value.toList.drop 7).length = 64 := by
    rw [← plain.1, ← digits, Text.lower, List.length_map]
  have hexadecimal := all_hexDigit?_iff.mpr (digits.symm ▸ plain.2)
  have kept := toText?_drop (List.take_append_drop 7 _).symm width
  unfold parse
  simp only [isScheme_of_lower name, length, hexadecimal, kept, String.toList_ofList, digits,
    String.ofList_toList]
  rfl

theorem parse_text {h : ProofHash} (plain : h.IsPlain) : parse h.text = .ok h :=
  parse_of_lower plain (lower_text plain)

/-- With a long s at the front the colon is kept with the digits. -/
theorem parse_cases {h : ProofHash} {value : String} (read : parse value = .ok h) :
    value.toList.head? ≠ some 'ſ' ∧ Text.lower value.toList = h.text.toList ∧ h.IsPlain ∨
      value.toList.head? = some 'ſ' ∧
        ∃ plain : ProofHash, plain.IsPlain ∧ h.digits = ":" ++ plain.digits := by
  unfold parse at read
  by_cases accepted : (isScheme (value.toList.take 7) && (value.toList.drop 7).length = 64 &&
      (value.toList.drop 7).all fun c => (Text.hexDigit? c).isSome) = true
  case neg => rw [if_neg accepted] at read; cases read
  rw [if_pos accepted] at read
  simp only [Bool.and_eq_true, decide_eq_true_eq] at accepted
  obtain ⟨⟨named, length⟩, hexadecimal⟩ := accepted
  have parts := (List.take_append_drop 7 value.toList).symm
  have plain : (ProofHash.mk (String.ofList (Text.lower (value.toList.drop 7)))).IsPlain :=
    ⟨by simpa [Text.lower] using length, by simpa using all_hexDigit?_iff.mp hexadecimal⟩
  rcases isScheme_cases named with same | ⟨others, long, width⟩
  · have width : String.utf8Len (value.toList.take 7) = 7 := by
      rw [← Text.utf8Len_lower, same]
      decide
    rw [toText?_drop parts width] at read
    obtain rfl := Except.ok.inj read
    have lowered : Text.lower value.toList = (scheme.toList ++ Text.lower (value.toList.drop 7)) := by
      conv_lhs => rw [parts]
      rw [Text.lower, List.map_append, ← same]
      rfl
    refine .inl ⟨?_, ?_, by simpa using plain⟩
    · intro first
      obtain ⟨rest, begins⟩ := List.head?_eq_some_iff.mp first
      have letters := congrArg List.head? lowered
      rw [begins] at letters
      exact absurd (show some (Char.toLower 'ſ') = some 's' from letters) (by decide)
    · rw [lowered, toList_text, String.toList_ofList, String.toList_ofList]
  · rw [long, List.append_assoc] at parts
    rw [toText?_drop parts (by rw [String.utf8Len_cons, width]; rfl)] at read
    obtain rfl := Except.ok.inj read
    refine .inr ⟨by rw [parts]; rfl, _, plain, ?_⟩
    simp [Text.lower]

theorem isPlain_iff_of_parse {h : ProofHash} {value : String} (read : parse value = .ok h) :
    h.IsPlain ↔ value.toList.head? ≠ some 'ſ' := by
  rcases parse_cases read with ⟨other, -, plain⟩ | ⟨long, digits, plain, kept⟩
  · exact iff_of_true plain other
  · refine iff_of_false ?_ (not_not.mpr long)
    rintro ⟨length, -⟩
    rw [kept, String.toList_append, List.length_append, plain.1] at length
    cases length

theorem parse_text_iff_of_parse {h : ProofHash} {value : String} (read : parse value = .ok h) :
    (∃ again, parse h.text = .ok again) ↔ h.IsPlain := by
  refine ⟨?_, fun plain => ⟨h, parse_text plain⟩⟩
  rintro ⟨again, reread⟩
  rcases parse_cases read with ⟨-, -, plain⟩ | ⟨-, digits, plain, kept⟩
  · exact plain
  · -- With the colon there is one character more than in any text that does not begin with a long s.
    exfalso
    rcases parse_cases reread with ⟨-, same, short⟩ | ⟨long, -⟩
    · have length := congrArg List.length same
      rw [Text.lower, List.length_map, toList_text, toList_text, List.length_append,
        List.length_append, short.1, kept, String.toList_append, List.length_append, plain.1] at length
      cases length
    · rw [toList_text] at long
      cases long

theorem declares_eq_true_iff {declared : String} {computed : ProofHash} (plain : computed.IsPlain) :
    declares declared computed = true ↔
      Text.lower (Text.trim declared.toList) = computed.text.toList := by
  unfold declares
  constructor
  · intro declares
    split at declares
    case h_1 h read =>
      obtain rfl := of_decide_eq_true declares
      rcases parse_cases read with ⟨-, same, -⟩ | ⟨long, -⟩
      · rwa [String.toList_ofList] at same
      · exact absurd long ((isPlain_iff_of_parse read).mp plain)
    case h_2 => cases declares
  · intro same
    rw [parse_of_lower plain (by rwa [String.toList_ofList])]
    exact decide_eq_true rfl

theorem readsBack {h : ProofHash} (plain : h.IsPlain) : ReadsBack h := by
  refine ⟨rfl, nofun, ?_⟩
  simp [encode, decode, Tree.text, parse_text plain, Except.toOption]

end Curtail.ProofHash
