import Curtail.Json.Codec
import Curtail.Proofs.Text.Digits
import Curtail.Proofs.Text.Hex
import Mathlib.Data.String.Basic

namespace Curtail

def IsVerbatim (c : Char) : Prop := 0x20 ≤ c.toNat ∧ c.toNat < 0x7f ∧ c.toNat ≠ 0x22 ∧ c.toNat ≠ 0x5c

instance (c : Char) : Decidable (IsVerbatim c) := inferInstanceAs (Decidable (_ ∧ _))

theorem IsVerbatim.utf8Size {c : Char} (verbatim : IsVerbatim c) : c.utf8Size = 1 := by
  obtain ⟨-, small, -⟩ := verbatim
  have ascii : c.val ≤ 0x7f := UInt32.le_iff_toNat_le.mpr (Nat.le_of_lt small)
  simp [Char.utf8Size, ascii]

def AllVerbatim (cs : List Char) : Prop := ∀ c ∈ cs, IsVerbatim c

-- Given by name: the search may come to the instance that goes through every character there is.
instance (cs : List Char) : Decidable (AllVerbatim cs) :=
  @List.decidableBAll _ IsVerbatim inferInstance cs

theorem utf8Len_of_verbatim {cs : List Char} (all : AllVerbatim cs) :
    String.utf8Len cs = cs.length := by
  induction cs with
  | nil => rfl
  | cons c cs ih =>
      obtain ⟨first, others⟩ := List.forall_mem_cons.mp all
      rw [String.utf8Len_cons, ih others, first.utf8Size, List.length_cons]

theorem isVerbatim_of_isAlphanum {c : Char} (plain : c.isAlphanum = true) : IsVerbatim c := by
  change ((decide (65 ≤ c.val ∧ c.val ≤ 90) || (97 ≤ c.val && c.val ≤ 122)) ||
    (48 ≤ c.val && c.val ≤ 57)) = true at plain
  simp only [Bool.or_eq_true, Bool.and_eq_true, decide_eq_true_eq, UInt32.le_iff_toNat_le,
    UInt32.reduceToNat] at plain
  unfold IsVerbatim Char.toNat
  omega

theorem isVerbatim_of_isDigit {c : Char} (digit : c.isDigit = true) : IsVerbatim c :=
  isVerbatim_of_isAlphanum (by simp [Char.isAlphanum, digit])

structure Verbatim (cs : List Char) (most : Nat) : Prop where
  all : AllVerbatim cs
  length_le : cs.length ≤ most

namespace Verbatim

variable {cs ds : List Char} {most more : Nat}

theorem nil : Verbatim [] 0 := ⟨nofun, Nat.le_refl 0⟩

theorem weaken (verbatim : Verbatim cs most) (le : most ≤ more) : Verbatim cs more :=
  ⟨verbatim.all, Nat.le_trans verbatim.length_le le⟩

theorem append (front : Verbatim cs most) (back : Verbatim ds more) :
    Verbatim (cs ++ ds) (most + more) := by
  refine ⟨List.forall_mem_append.mpr ⟨front.all, back.all⟩, ?_⟩
  rw [List.length_append]
  exact Nat.add_le_add front.length_le back.length_le

theorem cons {c : Char} (first : IsVerbatim c) (others : Verbatim cs most) :
    Verbatim (c :: cs) (most + 1) :=
  ⟨List.forall_mem_cons.mpr ⟨first, others.all⟩, Nat.succ_le_succ others.length_le⟩

end Verbatim

namespace Json.Tree

theorem escape_of_verbatim {c : Char} (verbatim : IsVerbatim c) : escape c = [c] := by
  obtain ⟨low, -, quote, slash⟩ := verbatim
  unfold escape
  split
  case h_1 => exact absurd rfl quote
  case h_2 => exact absurd rfl slash
  case h_8 => exact if_neg (Nat.not_lt.mpr low)
  all_goals exact absurd low (by decide)

/-- The bytes of the text without white space. -/
def size (t : Tree) : Nat := t.compactText.utf8ByteSize

theorem size_eq (t : Tree) : t.size = String.utf8Len t.compact := String.utf8ByteSize_ofList _

theorem size_text_of_verbatim {s : String} (all : AllVerbatim s.toList) :
    (text s).size = s.toList.length + 2 := by
  have verbatim : s.toList.flatMap escape = s.toList := by
    rw [List.flatMap_congr fun c member => escape_of_verbatim (all c member), List.flatMap_singleton']
  rw [size_eq]
  change String.utf8Len ('"' :: (s.toList.flatMap escape ++ ['"'])) = _
  rw [verbatim, String.utf8Len_cons, String.utf8Len_append, utf8Len_of_verbatim all]
  rfl

theorem size_text_le {s : String} {most : Nat} (verbatim : Verbatim s.toList most) :
    (text s).size ≤ most + 2 := by
  rw [size_text_of_verbatim verbatim.all]
  exact Nat.add_le_add_right verbatim.length_le 2

/-! ## Numbers -/

theorem utf8Len_toDigits (n : Nat) : String.utf8Len (Nat.toDigits 10 n) = (Nat.toDigits 10 n).length :=
  utf8Len_of_verbatim fun _ member =>
    isVerbatim_of_isDigit (Nat.isDigit_of_mem_toDigits (by decide) (by decide) member)

theorem size_nat (n : Nat) : (nat n).size = (Nat.toDigits 10 n).length := by
  have spelled : (nat n).compact = Nat.toDigits 10 n := by
    simp [nat, compact, Numeral.text, Numeral.ofNat, Decimal.digits]
  rw [size_eq, spelled, utf8Len_toDigits]

theorem size_nat_le {n count : Nat} (small : n < 10 ^ count) (positive : 0 < count) :
    (nat n).size ≤ count := by
  rw [size_nat]
  exact length_toDigits_le small positive

theorem size_int_le {n : Int} {count : Nat} (small : n.natAbs < 10 ^ count) (positive : 0 < count) :
    (int n).size ≤ count + 1 := by
  have spelled : (int n).compact = (if n < 0 then ['-'] else []) ++ Nat.toDigits 10 n.natAbs := by
    simp [int, compact, Numeral.text, Numeral.ofInt, Decimal.digits]
  have sign : String.utf8Len (if n < 0 then ['-'] else []) ≤ 1 := by
    split <;> decide
  have digits := length_toDigits_le small positive
  rw [size_eq, spelled, String.utf8Len_append, utf8Len_toDigits]
  omega

/-! ## Records and arrays -/

def membersSize : List (String × Tree) → Nat
  | [] => 0
  | (name, value) :: members => (text name).size + value.size + 2 + membersSize members

theorem membersSize_append (left right : List (String × Tree)) :
    membersSize (left ++ right) = membersSize left + membersSize right := by
  induction left with
  | nil => exact (Nat.zero_add _).symm
  | cons member left ih =>
      rw [List.cons_append, membersSize, membersSize, ih]
      omega

theorem membersSize_field {α : Type} [Codec α] (name : String) (x : α) :
    membersSize (field name x) = (text name).size + (encode x).size + 2 := by
  simp [membersSize, field]

theorem membersSize_optionalField {α : Type} [Codec α] (name : String) (x : Option α) :
    membersSize (optionalField name x) = match x with
      | none => 0
      | some x => (text name).size + (encode x).size + 2 := by
  cases x <;> simp [membersSize, optionalField]

theorem utf8Len_quote (name : String) : String.utf8Len (quote (some name)) = (text name).size :=
  (size_eq (text name)).symm

theorem utf8Len_compactMembers (members : List (String × Tree)) :
    String.utf8Len (compactMembers (members.map fun (name, value) => (some name, value))) =
      1 + membersSize members := by
  induction members with
  | nil => rfl
  | cons member members ih =>
      obtain ⟨name, value⟩ := member
      have mark : ','.utf8Size = 1 ∧ ':'.utf8Size = 1 := ⟨rfl, rfl⟩
      simp only [List.map_cons, compactMembers, String.utf8Len_cons, String.utf8Len_append, ih, mark,
        utf8Len_quote, ← size_eq, membersSize]
      omega

theorem size_record {members : List (String × Tree)} (filled : members ≠ []) :
    (record members).size = 1 + membersSize members := by
  cases members with
  | nil => exact absurd rfl filled
  | cons member members =>
      obtain ⟨name, value⟩ := member
      have mark : '{'.utf8Size = 1 ∧ ':'.utf8Size = 1 := ⟨rfl, rfl⟩
      rw [size_eq]
      simp only [record, List.map_cons, compact, String.utf8Len_cons, String.utf8Len_append,
        utf8Len_compactMembers, mark, utf8Len_quote, ← size_eq, membersSize]
      omega

def itemsSize : List Tree → Nat
  | [] => 0
  | item :: items => item.size + 1 + itemsSize items

theorem size_record_le {members : List (String × Tree)} {most : Nat} (filled : members ≠ [])
    (small : 1 + membersSize members ≤ most) : (record members).size ≤ most :=
  (size_record filled).trans_le small

theorem utf8Len_compactItems (items : List Tree) :
    String.utf8Len (compactItems items) = 1 + itemsSize items := by
  induction items with
  | nil => rfl
  | cons item items ih =>
      have mark : ','.utf8Size = 1 := rfl
      simp only [compactItems, String.utf8Len_cons, String.utf8Len_append, ih, mark, ← size_eq,
        itemsSize]
      omega

theorem size_array {items : List Tree} (filled : items ≠ []) :
    (array items).size = 1 + itemsSize items := by
  cases items with
  | nil => exact absurd rfl filled
  | cons item items =>
      have mark : '['.utf8Size = 1 := rfl
      rw [size_eq]
      simp only [compact, String.utf8Len_cons, String.utf8Len_append, utf8Len_compactItems, mark,
        ← size_eq, itemsSize]
      omega

theorem itemsSize_le {items : List Tree} {most : Nat} (short : ∀ item ∈ items, item.size ≤ most) :
    itemsSize items ≤ items.length * (most + 1) := by
  induction items with
  | nil => exact Nat.zero_le _
  | cons item items ih =>
      obtain ⟨first, others⟩ := List.forall_mem_cons.mp short
      have rest := ih others
      rw [itemsSize, List.length_cons, Nat.succ_mul]
      omega

theorem le_itemsSize {items : List Tree} {least : Nat} (long : ∀ item ∈ items, least ≤ item.size) :
    items.length * (least + 1) ≤ itemsSize items := by
  induction items with
  | nil => exact Nat.le_of_eq (Nat.zero_mul _)
  | cons item items ih =>
      obtain ⟨first, others⟩ := List.forall_mem_cons.mp long
      have rest := ih others
      rw [itemsSize, List.length_cons, Nat.succ_mul]
      omega

theorem size_list_le {α : Type} [Codec α] {xs : List α} {most : Nat}
    (short : ∀ x ∈ xs, (encode x).size ≤ most) : (encode xs).size ≤ 2 + xs.length * (most + 1) := by
  by_cases empty : xs = []
  · rw [empty]
    exact Nat.le_add_right 2 _
  · have total := itemsSize_le (List.forall_mem_map.mpr short)
    have size : (encode xs).size = 1 + itemsSize (xs.map encode) :=
      size_array (mt List.map_eq_nil_iff.mp empty)
    rw [List.length_map] at total
    omega

theorem le_size_list {α : Type} [Codec α] {xs : List α} {least : Nat}
    (long : ∀ x ∈ xs, least ≤ (encode x).size) : xs.length * (least + 1) ≤ (encode xs).size := by
  by_cases empty : xs = []
  · rw [empty]
    exact (Nat.zero_mul _).trans_le (Nat.zero_le _)
  · have total := le_itemsSize (List.forall_mem_map.mpr long)
    have size : (encode xs).size = 1 + itemsSize (xs.map encode) :=
      size_array (mt List.map_eq_nil_iff.mp empty)
    rw [List.length_map] at total
    omega

theorem itemsSize_perm {items others : List Tree} (reordered : items.Perm others) :
    itemsSize items = itemsSize others := by
  induction reordered with
  | nil => rfl
  | cons item _ ih => rw [itemsSize, itemsSize, ih]
  | swap first second items => simp only [itemsSize]; omega
  | trans _ _ first second => exact first.trans second

theorem size_list_perm {α : Type} [Codec α] {xs ys : List α} (reordered : xs.Perm ys) :
    (encode xs).size = (encode ys).size := by
  by_cases empty : ys = []
  · subst empty
    rw [reordered.eq_nil]
  · have filled : xs ≠ [] := by
      rintro rfl
      exact empty reordered.nil_eq.symm
    have size : ∀ zs : List α, zs ≠ [] → (encode zs).size = 1 + itemsSize (zs.map encode) :=
      fun zs filled => size_array (mt List.map_eq_nil_iff.mp filled)
    rw [size xs filled, size ys empty, itemsSize_perm (reordered.map encode)]

end Json.Tree

end Curtail
