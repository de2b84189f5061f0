import Curtail.Entity.Proof
import Curtail.Proofs.Json.Codec
import Curtail.Proofs.Json.Grammar
import Curtail.Proofs.Json.Members
import Curtail.Proofs.Json.Size

/-!
The canonical text is a normal form: it is the same for all texts of a value, and it is its own
canonical text.
-/

namespace Curtail.Json

namespace Numeral

theorem number?_integer {n : Numeral} {i : Int} (read : n.number? = some (.integer i)) :
    -0x8000000000000000 ≤ i ∧ i < 0x10000000000000000 := by
  have double : n.double?.map Number.double ≠ some (.integer i) := by simp
  unfold number? at read
  split at read
  · split at read
    · rename_i range
      cases read
      exact range
    · exact absurd read double
  · exact absurd read double

theorem number?_ofInt {i : Int} (range : -0x8000000000000000 ≤ i ∧ i < 0x10000000000000000) :
    (ofInt i).number? = some (.integer i) := by
  simp [number?, ReadsBack.int?_ofInt, range]

end Numeral

namespace Value

variable {most : Nat} {items : List Value} {members : List (String × Value)}

/-- What a reader makes of a text. -/
structure IsNormal (most : Nat) (v : Value) : Prop where
  distinct : v.HasDistinctKeys
  arranged : v.arranged = v
  shallow : v.depth ≤ most
  integers : ∀ i, .number (.integer i) ∈ v.parts → -0x8000000000000000 ≤ i ∧ i < 0x10000000000000000

namespace IsNormal

theorem array (normal : ∀ item ∈ items, item.IsNormal most) : (Value.array items).IsNormal (most + 1) where
  distinct := by
    intro members part
    rcases mem_parts_array.mp part with same | ⟨item, member, part⟩
    · cases same
    · exact (normal item member).distinct members part
  arranged := by
    rw [Value.arranged, arrangedItems_eq_map, List.map_congr_left fun item member =>
      (normal item member).arranged, List.map_id']
  shallow := Nat.succ_le_succ (itemsDepth_le.mpr fun item member => (normal item member).shallow)
  integers := by
    intro i part
    rcases mem_parts_array.mp part with same | ⟨item, member, part⟩
    · cases same
    · exact (normal item member).integers i part

theorem object (sorted : IsSorted members) (normal : ∀ member ∈ members, member.2.IsNormal most) :
    (Value.object members).IsNormal (most + 1) where
  distinct := by
    intro others part
    rcases mem_parts_object.mp part with same | ⟨member, listed, part⟩
    · cases same
      exact sorted.nodup
    · exact (normal member listed).distinct others part
  arranged := by
    have same : arrangedMembers members = members := by
      rw [arrangedMembers_eq_map, List.map_congr_left fun member listed => by
        rw [(normal member listed).arranged], List.map_id']
    rw [Value.arranged, same, sorted.arrange_eq]
  shallow := Nat.succ_le_succ (membersDepth_le.mpr fun member listed => (normal member listed).shallow)
  integers := by
    intro i part
    rcases mem_parts_object.mp part with same | ⟨member, listed, part⟩
    · cases same
    · exact (normal member listed).integers i part

end IsNormal

mutual

theorem isNormal_of_value? : {t : Tree} → {most : Nat} → {v : Value} → t.value? most = some v →
    v.IsNormal most
  | .null, _, _, read => by
      cases read
      exact ⟨by simp [HasDistinctKeys, parts], rfl, Nat.zero_le _, by simp [parts]⟩
  | .bool _, _, _, read => by
      cases read
      exact ⟨by simp [HasDistinctKeys, parts], rfl, Nat.zero_le _, by simp [parts]⟩
  | .number n, _, _, read => by
      obtain ⟨x, meant, rfl⟩ := Option.map_eq_some_iff.mp read
      refine ⟨by simp [HasDistinctKeys, parts], rfl, Nat.zero_le _, fun i part => ?_⟩
      obtain rfl : Number.integer i = x := by simpa [parts] using part
      exact Numeral.number?_integer meant
  | .string _, _, _, read => by
      obtain ⟨s, -, rfl⟩ := Option.map_eq_some_iff.mp read
      exact ⟨by simp [HasDistinctKeys, parts], rfl, Nat.zero_le _, by simp [parts]⟩
  | .array _, 0, _, read => by cases read
  | .array items, most + 1, _, read => by
      obtain ⟨values, found, rfl⟩ := Option.map_eq_some_iff.mp read
      exact .array (isNormal_of_values? found)
  | .object _, 0, _, read => by cases read
  | .object members, most + 1, _, read => by
      obtain ⟨values, found, rfl⟩ := Option.map_eq_some_iff.mp read
      exact .object (arrange_sorted values) fun member listed =>
        isNormal_of_memberValues? found member (mem_arrange listed)

theorem isNormal_of_values? : {trees : List Tree} → {most : Nat} → {values : List Value} →
    Tree.values? most trees = some values → ∀ v ∈ values, v.IsNormal most
  | [], _, _, read => by
      cases read
      exact nofun
  | item :: trees, most, _, read => by
      simp only [Tree.values?, Option.bind_eq_bind, Option.bind_eq_some_iff] at read
      obtain ⟨v, first, values, others, same⟩ := read
      cases same
      exact List.forall_mem_cons.mpr ⟨isNormal_of_value? first, isNormal_of_values? others⟩

theorem isNormal_of_memberValues? : {trees : List (Spelled × Tree)} → {most : Nat} →
    {values : List (String × Value)} → Tree.memberValues? most trees = some values →
    ∀ member ∈ values, member.2.IsNormal most
  | [], _, _, read => by
      cases read
      exact nofun
  | (key, item) :: trees, most, _, read => by
      simp only [Tree.memberValues?, Option.bind_eq_bind, Option.bind_eq_some_iff] at read
      obtain ⟨name, -, v, first, values, others, same⟩ := read
      cases same
      exact List.forall_mem_cons.mpr ⟨isNormal_of_value? first, isNormal_of_memberValues? others⟩

end

mutual

theorem hasTree_canonicalTree : (v : Value) →
    (∀ x, .number x ∈ v.parts → (canonicalNumeral x).number? = some x) → v.HasTree v.canonicalTree
  | .null, _ => rfl
  | .bool _, _ => rfl
  | .number x, meant => ⟨canonicalNumeral x, meant x List.mem_cons_self, rfl⟩
  | .string _, _ => rfl
  | .array items, meant => ⟨canonicalTrees items, haveTrees_canonicalTrees items fun x part =>
      meant x (List.mem_cons_of_mem _ part), rfl⟩
  | .object members, meant => ⟨canonicalMemberTrees members, canonicalMemberTrees members,
      membersHaveTrees_canonicalMemberTrees members fun x part =>
        meant x (List.mem_cons_of_mem _ part), .refl _, rfl⟩

theorem haveTrees_canonicalTrees : (items : List Value) →
    (∀ x, .number x ∈ itemParts items → (canonicalNumeral x).number? = some x) →
    HaveTrees items (canonicalTrees items)
  | [], _ => rfl
  | item :: items, meant => ⟨item.canonicalTree, canonicalTrees items,
      hasTree_canonicalTree item fun x part => meant x (List.mem_append_left _ part),
      haveTrees_canonicalTrees items fun x part => meant x (List.mem_append_right _ part), rfl⟩

theorem membersHaveTrees_canonicalMemberTrees : (members : List (String × Value)) →
    (∀ x, .number x ∈ memberParts members → (canonicalNumeral x).number? = some x) →
    MembersHaveTrees members (canonicalMemberTrees members)
  | [], _ => rfl
  | (_, value) :: members, meant => ⟨value.canonicalTree, canonicalMemberTrees members,
      hasTree_canonicalTree value fun x part => meant x (List.mem_append_left _ part),
      membersHaveTrees_canonicalMemberTrees members fun x part =>
        meant x (List.mem_append_right _ part), rfl⟩

end

theorem ofText?_canonicalText (v : Value) :
    ofText? v.canonicalText = v.canonicalTree.value? Tree.depthLimit := by
  have read : Tree.ofText? v.canonicalText = some v.canonicalTree := by
    rw [Tree.ofText?, canonicalText, String.toList_ofList, canonical_eq_print,
      Tree.ofChars?_print canonicalStyle_isReadable v.canonicalTree_isPlain]
  rw [ofText?, read, Option.bind_some]

def ReadsDoublesBack (v : Value) : Prop :=
  ∀ x, .number (.double x) ∈ v.parts →
    ofText? (Value.number (.double x)).canonicalText = some (.number (.double x))

theorem number?_canonicalNumeral {v : Value} (normal : v.IsNormal most) (back : v.ReadsDoublesBack)
    (x : Number) (part : .number x ∈ v.parts) : (canonicalNumeral x).number? = some x := by
  cases x with
  | integer i => exact Numeral.number?_ofInt (normal.integers i part)
  | double x =>
      have read := back x part
      rw [ofText?_canonicalText] at read
      obtain ⟨y, meant, same⟩ := Option.map_eq_some_iff.mp read
      cases same
      exact meant

theorem ofText?_canonicalText_of_isNormal {v : Value} (normal : v.IsNormal Tree.depthLimit)
    (back : v.ReadsDoublesBack) : ofText? v.canonicalText = some v := by
  have tree := hasTree_canonicalTree v (number?_canonicalNumeral normal back)
  rw [ofText?_canonicalText, tree.value? normal.distinct, if_pos normal.shallow, normal.arranged]

end Value

section Printable

def IsPrintable (c : Char) : Prop := 0x20 ≤ c.toNat ∧ c.toNat < 0x7F

instance (c : Char) : Decidable (IsPrintable c) := inferInstanceAs (Decidable (_ ∧ _))

theorem isPrintable_of_isDigit {c : Char} (digit : c.isDigit = true) : IsPrintable c := by
  obtain ⟨low, high, -⟩ := isVerbatim_of_isDigit digit
  exact ⟨low, high⟩

theorem IsRow.printable {ds : List Char} {n : Nat} (row : IsRow ds n) : ∀ c ∈ ds, IsPrintable c :=
  fun c member => isPrintable_of_isDigit (row.spells.digits c member)

namespace Numeral

variable {cs : List Char}

theorem FractionText.printable {n places : Nat} (text : FractionText n places cs) :
    ∀ c ∈ cs, IsPrintable c := by
  cases text with
  | none => exact nofun
  | digits row => exact List.forall_mem_cons.mpr ⟨by decide, row.printable⟩

theorem ExponentText.printable {e : Option Int} (text : ExponentText e cs) :
    ∀ c ∈ cs, IsPrintable c := by
  cases text with
  | none => exact nofun
  | bare mark row =>
      exact List.forall_mem_cons.mpr ⟨by rcases mark with rfl | rfl <;> decide, row.printable⟩
  | plus mark row | minus mark row =>
      exact List.forall_mem_cons.mpr ⟨by rcases mark with rfl | rfl <;> decide,
        List.forall_mem_cons.mpr ⟨by decide, row.printable⟩⟩

theorem IsText.printable {n : Numeral} (text : n.IsText cs) : ∀ c ∈ cs, IsPrintable c := by
  obtain ⟨fraction, exponent, fractionText, exponentText, rfl⟩ := text
  have sign : ∀ c ∈ (if n.negative then ['-'] else []), IsPrintable c := by
    split <;> simp [IsPrintable]
  simp only [List.forall_mem_append]
  exact ⟨sign, (IsRow.digits n.whole).printable, fractionText.printable, exponentText.printable⟩

end Numeral

namespace Value

theorem canonicalEscape_printable (c : Char) : ∀ d ∈ canonicalEscape c, IsPrintable d := by
  have digit (n : Nat) : IsPrintable (Text.hexDigit (n % 16)) := by
    have all : ∀ k : Fin 16, IsPrintable (Text.hexDigit k.val) := by decide
    exact all ⟨n % 16, Nat.mod_lt _ (by decide)⟩
  have four (n : Nat) : ∀ d ∈ Text.hexFour n, IsPrintable d := by
    simp [Text.hexFour, digit]
  unfold canonicalEscape
  split
  iterate 7 (simp [IsPrintable])
  split
  · rename_i printable
    exact List.forall_mem_singleton.mpr printable
  · have slash : IsPrintable '\\' := by decide
    have mark : IsPrintable 'u' := by decide
    simp only [List.forall_mem_flatMap, List.forall_mem_cons]
    exact fun unit _ => ⟨slash, mark, four unit⟩

theorem canonicalQuote_printable (s : String) : ∀ c ∈ canonicalQuote s, IsPrintable c := by
  intro c member
  simp only [canonicalQuote, List.mem_cons, List.mem_append, List.mem_flatMap, List.not_mem_nil,
    or_false] at member
  rcases member with rfl | ⟨d, -, member⟩ | rfl
  · decide
  · exact canonicalEscape_printable d c member
  · decide

mutual

theorem canonical_printable : (v : Value) → ∀ c ∈ v.canonical, IsPrintable c
  | .null => by simp [canonical, IsPrintable]
  | .bool true => by simp [canonical, IsPrintable]
  | .bool false => by simp [canonical, IsPrintable]
  | .number x => by
      rw [canonical, canonicalNumber_eq]
      exact (Numeral.text_isText (.inr rfl) (canonicalNumeral_isProper x)).printable
  | .string s => canonicalQuote_printable s
  | .array [] => by simp [canonical, IsPrintable]
  | .array (item :: items) => List.forall_mem_cons.mpr ⟨by decide, List.forall_mem_append.mpr
      ⟨canonical_printable item, canonicalItems_printable items⟩⟩
  | .object [] => by simp [canonical, IsPrintable]
  | .object ((key, value) :: members) => List.forall_mem_cons.mpr ⟨by decide,
      List.forall_mem_append.mpr ⟨canonicalQuote_printable key, List.forall_mem_cons.mpr ⟨by decide,
        List.forall_mem_append.mpr ⟨canonical_printable value, canonicalMembers_printable members⟩⟩⟩⟩

theorem canonicalItems_printable : (items : List Value) → ∀ c ∈ canonicalItems items, IsPrintable c
  | [] => by simp [canonicalItems, IsPrintable]
  | item :: items => List.forall_mem_cons.mpr ⟨by decide, List.forall_mem_append.mpr
      ⟨canonical_printable item, canonicalItems_printable items⟩⟩

theorem canonicalMembers_printable : (members : List (String × Value)) →
    ∀ c ∈ canonicalMembers members, IsPrintable c
  | [] => by simp [canonicalMembers, IsPrintable]
  | (key, value) :: members => List.forall_mem_cons.mpr ⟨by decide,
      List.forall_mem_append.mpr ⟨canonicalQuote_printable key, List.forall_mem_cons.mpr ⟨by decide,
        List.forall_mem_append.mpr ⟨canonical_printable value, canonicalMembers_printable members⟩⟩⟩⟩

end

end Value

end Printable

namespace Value

def IsText (v : Value) (s : String) : Prop :=
  ∃ t, v.HasTree t ∧ Padded t.IsText s.toList

theorem IsText.read {v : Value} {s : String} (text : v.IsText s) (distinct : v.HasDistinctKeys) :
    ofText? s = if v.depth ≤ Tree.depthLimit then some v.arranged else none := by
  obtain ⟨t, tree, padded⟩ := text
  have read : Tree.ofText? s = some t := Tree.ofChars?_padded padded
  rw [ofText?, read, Option.bind_some, tree.value? distinct]

def canonicalize? (s : String) : Option (String × ProofHash) :=
  (ofText? s).map fun v => (v.canonicalText, Payload.hashOf v.canonicalText)

theorem canonicalText_normal_form :
    (∀ s v, ofText? s = some v →
      (∀ c ∈ v.canonicalText.toList, IsPrintable c) ∧
      (v.ReadsDoublesBack → ofText? v.canonicalText = some v ∧
        canonicalize? v.canonicalText = some (v.canonicalText, Payload.hashOf v.canonicalText))) ∧
    ∀ v : Value, v.HasDistinctKeys → ∃ text : String, ∀ s, v.IsText s →
      canonicalize? s =
        if v.depth ≤ Tree.depthLimit then some (text, Payload.hashOf text) else none := by
  refine ⟨fun s v read => ⟨?_, fun back => ?_⟩, fun v distinct => ⟨v.arranged.canonicalText, ?_⟩⟩
  · rw [canonicalText, String.toList_ofList]
    exact canonical_printable v
  · obtain ⟨t, -, spelled⟩ := Option.bind_eq_some_iff.mp read
    have again := ofText?_canonicalText_of_isNormal (isNormal_of_value? spelled) back
    refine ⟨again, ?_⟩
    rw [canonicalize?, again]
    rfl
  · intro s text
    rw [canonicalize?, text.read distinct]
    split <;> rfl

def sampled : Binary64 := ⟨false, 0x1719999999999A, -48, by decide⟩

def sample : Value :=
  .object [("é😀", .array [.number (.double sampled), .null]), ("a", .string "/")]

def samplePlain : String := "\x7b\"a\":\"/\",\"é😀\":[23.1,null]\x7d"

/-- White space, the members the other way round, an exponent, and escapes that are not needed. -/
def sampleRespelled : String := " \x7b\"\\u00E9\\ud83d\\uDE00\" :[ 2.310e+1,null],\n\"a\":\"\\/\"\x7d"

def sampleCanonical : String := "\x7b\"a\":\"/\",\"\\u00e9\\ud83d\\ude00\":[2.31E1,null]\x7d"

theorem sample_isText : sample.IsText samplePlain := by
  let point : Numeral := ⟨false, 23, 1, 1, none⟩
  refine ⟨.object [(some "a", .string (some "/")), (some "é😀", .array [.number point, .null])], ?_, ?_⟩
  · have number : (Value.number (.double sampled)).HasTree (.number point) :=
      ⟨point, by decide +kernel, rfl⟩
    exact ⟨_, _, ⟨_, _, ⟨_, ⟨_, _, number, ⟨_, _, rfl, rfl, rfl⟩, rfl⟩, rfl⟩, ⟨_, _, rfl, rfl, rfl⟩, rfl⟩,
      .swap _ _ _, rfl⟩
  · have row : IsRow ['1'] 1 := .digits 1
    have number : point.IsText "23.1".toList := ⟨_, _, .digits row, .none, by decide⟩
    have items : (Tree.array [.number point, .null]).IsText "[23.1,null]".toList :=
      ⟨_, ",null]".toList, .bare number, ⟨_, [']'], .bare rfl, rfl, rfl⟩, by decide⟩
    exact .bare ⟨_, _, ",\"é😀\":[23.1,null]\x7d".toList, .bare (.itself (by simp)),
      .bare (QuotedText.itself (by simp)),
      ⟨_, _, ['}'], .bare (.itself (by simp)), .bare items, rfl, by decide⟩, by decide⟩

theorem sample_isText_respelled : sample.IsText sampleRespelled := by
  let scaled : Numeral := ⟨false, 2, 310, 3, some 1⟩
  have gap : IsGap [' '] := by simp [IsGap]
  refine ⟨.object [(some "é😀", .array [.number scaled, .null]), (some "a", .string (some "/"))], ?_, ?_⟩
  · have number : (Value.number (.double sampled)).HasTree (.number scaled) :=
      ⟨scaled, by decide +kernel, rfl⟩
    exact ⟨_, _, ⟨_, _, ⟨_, ⟨_, _, number, ⟨_, _, rfl, rfl, rfl⟩, rfl⟩, rfl⟩, ⟨_, _, rfl, rfl, rfl⟩, rfl⟩,
      .refl _, rfl⟩
  · have fraction : IsRow ['3', '1', '0'] 310 := .digits 310
    have exponent : IsRow ['1'] 1 := .digits 1
    have number : scaled.IsText "2.310e+1".toList :=
      ⟨_, _, .digits fraction, .plus (.inl rfl) exponent, by decide⟩
    have items : (Tree.array [.number scaled, .null]).IsText "[ 2.310e+1,null]".toList :=
      ⟨" 2.310e+1".toList, ",null]".toList, ⟨[' '], _, [], gap, number, nofun, by decide⟩,
        ⟨_, [']'], .bare rfl, rfl, rfl⟩, by decide⟩
    have accented : UnitText 0xE9 "\\u00E9".toList :=
      .digits (a := 0) (b := 0) (c := 14) (d := 9) (by decide) (by decide) (by decide) (by decide)
    have high : UnitText 0xD83D "\\ud83d".toList :=
      .digits (a := 13) (b := 8) (c := 3) (d := 13) (by decide) (by decide) (by decide) (by decide)
    have low : UnitText 0xDE00 "\\uDE00".toList :=
      .digits (a := 13) (b := 14) (c := 0) (d := 0) (by decide) (by decide) (by decide) (by decide)
    have name : QuotedText (some "é😀") "\"\\u00E9\\ud83d\\uDE00\"".toList :=
      ⟨_, _, rfl, .cons (.unit accented) (.cons (.pair high low (by decide) (by decide) (by decide)
        (by decide) (by decide)) .nil), by decide⟩
    have slash : QuotedText (some "/") "\"\\/\"".toList :=
      ⟨"/", ['\\', '/'], rfl, .cons (.short (by decide)) .nil, by decide⟩
    exact ⟨[' '], _, [], gap, ⟨"\"\\u00E9\\ud83d\\uDE00\" ".toList, _, ",\n\"a\":\"\\/\"\x7d".toList,
      ⟨[], _, [' '], nofun, name, gap, by decide⟩, .bare items,
      ⟨"\n\"a\"".toList, _, ['}'], ⟨['\n'], _, [], by simp [IsGap], .itself (by simp), nofun, by decide⟩,
        .bare slash, rfl, by decide⟩, rfl⟩, nofun, by decide⟩

theorem sample_hasDistinctKeys : sample.HasDistinctKeys := by
  intro members part
  have whole : members = [("é😀", .array [.number (.double sampled), .null]), ("a", .string "/")] := by
    simpa [sample, parts, itemParts, memberParts] using part
  rw [whole]
  decide

theorem canonicalText_of_sample :
    sample.HasDistinctKeys ∧ sample.IsText samplePlain ∧ sample.IsText sampleRespelled ∧
      ofText? samplePlain = some sample.arranged ∧ sample.arranged.ReadsDoublesBack ∧
      ofText? sampleCanonical = some sample.arranged ∧ (∀ c ∈ sampleCanonical.toList, IsPrintable c) ∧
      ∀ s ∈ [samplePlain, sampleRespelled, sampleCanonical],
        canonicalize? s = some (sampleCanonical, Payload.hashOf sampleCanonical) := by
  have canonical : sample.arranged.canonicalText = sampleCanonical := by decide +kernel
  have shallow : sample.depth ≤ Tree.depthLimit := by decide
  have read : ofText? samplePlain = some sample.arranged := by
    rw [sample_isText.read sample_hasDistinctKeys, if_pos shallow]
  have back : sample.arranged.ReadsDoublesBack := by
    intro x part
    have same : x = sampled := by
      have arranged : sample.arranged =
          .object [("a", .string "/"), ("é😀", .array [.number (.double sampled), .null])] := rfl
      simpa [arranged, parts, itemParts, memberParts] using part
    have meant : (Numeral.scientific sampled).number? = some (.double sampled) := by decide +kernel
    rw [same, ofText?_canonicalText, canonicalTree, canonicalNumeral, Tree.value?, meant]
    rfl
  obtain ⟨printable, again⟩ := canonicalText_normal_form.1 samplePlain sample.arranged read
  obtain ⟨common, same⟩ := canonicalText_normal_form.2 sample sample_hasDistinctKeys
  simp only [if_pos shallow] at same
  obtain rfl : common = sampleCanonical := by
    have first := same samplePlain sample_isText
    rw [canonicalize?, read] at first
    exact canonical ▸ (Prod.mk.inj (Option.some.inj first)).1.symm
  rw [canonical] at printable again
  obtain ⟨reread, canonicalized⟩ := again back
  refine ⟨sample_hasDistinctKeys, sample_isText, sample_isText_respelled, read, back, reread, printable, ?_⟩
  simp only [List.forall_mem_cons, List.not_mem_nil, false_implies, implies_true, and_true]
  exact ⟨same samplePlain sample_isText, same sampleRespelled sample_isText_respelled, canonicalized⟩

end Value

end Curtail.Json
