import Curtail.Index.Table
import Curtail.Json.Value
import Mathlib.Data.List.Induction

namespace Curtail.Json

section Arrange

variable {members others : List (String × Value)}

theorem place_eq (key : String) (value : Value) (members : List (String × Value)) :
    place key value members = Table.place key value members := by
  induction members with
  | nil => rfl
  | cons member members ih =>
      obtain ⟨k, v⟩ := member
      cases order : compare key k <;> simp only [place, Table.place, order, ih]

theorem arrange_concat (members : List (String × Value)) (member : String × Value) :
    arrange (members ++ [member]) = Table.place member.1 member.2 (arrange members) := by
  simp [arrange, List.foldl_append, place_eq]

def IsSorted (members : List (String × Value)) : Prop :=
  members.Pairwise fun a b => compare a.1 b.1 = .lt

theorem arrange_sorted (members : List (String × Value)) : IsSorted (arrange members) := by
  induction members using List.reverseRecOn with
  | nil => exact .nil
  | append_singleton members member ih =>
      rw [arrange_concat]
      exact Table.place_sorted _ _ ih

theorem place_perm {key : String} (absent : key ∉ members.map (·.1)) (value : Value) :
    (Table.place key value members).Perm ((key, value) :: members) := by
  induction members with
  | nil => exact .refl _
  | cons member members ih =>
      obtain ⟨k, v⟩ := member
      simp only [List.map_cons, List.mem_cons, not_or] at absent
      unfold Table.place
      split
      · exact .refl _
      · rename_i equal
        exact absurd (Std.LawfulEqOrd.eq_of_compare equal) absent.1
      · exact ((ih absent.2).cons _).trans (.swap _ _ _)

theorem arrange_perm (distinct : (members.map (·.1)).Nodup) : (arrange members).Perm members := by
  induction members using List.reverseRecOn with
  | nil => exact .refl _
  | append_singleton members member ih =>
      rw [List.map_append, List.nodup_append] at distinct
      obtain ⟨front, -, apart⟩ := distinct
      have arranged := ih front
      have absent : member.1 ∉ (arrange members).map (·.1) := fun present =>
        apart member.1 ((arranged.map _).mem_iff.mp present) member.1 (by simp) rfl
      rw [arrange_concat]
      exact (place_perm absent member.2).trans
        ((arranged.cons _).trans (List.perm_append_singleton _ _).symm)

theorem IsSorted.nodup (sorted : IsSorted members) : (members.map (·.1)).Nodup := by
  rw [List.nodup_iff_pairwise_ne, List.pairwise_map]
  refine sorted.imp fun less same => ?_
  simp [same] at less

theorem IsSorted.eq_of_perm (sorted : IsSorted members) (sorted' : IsSorted others)
    (reordered : members.Perm others) : members = others :=
  List.Perm.eq_of_pairwise (fun _ _ _ _ less greater => by
    rw [Std.OrientedCmp.gt_of_lt less] at greater
    cases greater) sorted sorted' reordered

theorem IsSorted.arrange_eq (sorted : IsSorted members) : arrange members = members :=
  (arrange_sorted members).eq_of_perm sorted (arrange_perm sorted.nodup)

theorem arrange_congr (reordered : members.Perm others) (distinct : (members.map (·.1)).Nodup) :
    arrange members = arrange others := by
  have distinct' : (others.map (·.1)).Nodup := (reordered.map _).nodup_iff.mp distinct
  exact (arrange_sorted members).eq_of_perm (arrange_sorted others)
    ((arrange_perm distinct).trans (reordered.trans (arrange_perm distinct').symm))

theorem mem_arrange {member : String × Value} (placed : member ∈ arrange members) :
    member ∈ members := by
  induction members using List.reverseRecOn with
  | nil => exact placed
  | append_singleton members last ih =>
      rw [arrange_concat] at placed
      rcases Table.mem_place placed with rfl | earlier
      · simp
      · exact List.mem_append_left _ (ih earlier)

end Arrange

namespace Value

mutual

def parts : Value → List Value
  | .null => [.null]
  | .bool b => [.bool b]
  | .number n => [.number n]
  | .string s => [.string s]
  | .array items => .array items :: itemParts items
  | .object members => .object members :: memberParts members

def itemParts : List Value → List Value
  | [] => []
  | item :: items => item.parts ++ itemParts items

def memberParts : List (String × Value) → List Value
  | [] => []
  | (_, value) :: members => value.parts ++ memberParts members

end

def HasDistinctKeys (v : Value) : Prop :=
  ∀ members, .object members ∈ v.parts → (members.map (·.1)).Nodup

mutual

def depth : Value → Nat
  | .null => 0
  | .bool _ => 0
  | .number _ => 0
  | .string _ => 0
  | .array items => itemsDepth items + 1
  | .object members => membersDepth members + 1

def itemsDepth : List Value → Nat
  | [] => 0
  | item :: items => max item.depth (itemsDepth items)

def membersDepth : List (String × Value) → Nat
  | [] => 0
  | (_, value) :: members => max value.depth (membersDepth members)

end

mutual

def arranged : Value → Value
  | .null => .null
  | .bool b => .bool b
  | .number n => .number n
  | .string s => .string s
  | .array items => .array (arrangedItems items)
  | .object members => .object (arrange (arrangedMembers members))

def arrangedItems : List Value → List Value
  | [] => []
  | item :: items => item.arranged :: arrangedItems items

def arrangedMembers : List (String × Value) → List (String × Value)
  | [] => []
  | (key, value) :: members => (key, value.arranged) :: arrangedMembers members

end

mutual

/-- Members in any order, and each number as any numeral that means it. -/
def HasTree : Value → Tree → Prop
  | .null, t => t = .null
  | .bool b, t => t = .bool b
  | .number x, t => ∃ n : Numeral, n.number? = some x ∧ t = .number n
  | .string s, t => t = .string (some s)
  | .array items, t => ∃ trees, HaveTrees items trees ∧ t = .array trees
  | .object members, t => ∃ trees written, MembersHaveTrees members trees ∧ trees.Perm written ∧
      t = .object written

def HaveTrees : List Value → List Tree → Prop
  | [], trees => trees = []
  | item :: items, trees => ∃ first others, item.HasTree first ∧ HaveTrees items others ∧
      trees = first :: others

def MembersHaveTrees : List (String × Value) → List (Spelled × Tree) → Prop
  | [], trees => trees = []
  | (key, value) :: members, trees => ∃ first others, value.HasTree first ∧
      MembersHaveTrees members others ∧ trees = (some key, first) :: others

end

variable {part : Value} {items : List Value} {members : List (String × Value)} {most : Nat}

theorem mem_parts_array :
    part ∈ (array items).parts ↔ part = array items ∨ ∃ item ∈ items, part ∈ item.parts := by
  have inside : part ∈ itemParts items ↔ ∃ item ∈ items, part ∈ item.parts := by
    induction items with
    | nil => simp [itemParts]
    | cons item items ih => simp [itemParts, ih]
  rw [parts, List.mem_cons, inside]

theorem mem_parts_object : part ∈ (object members).parts ↔
    part = object members ∨ ∃ member ∈ members, part ∈ member.2.parts := by
  have inside : part ∈ memberParts members ↔ ∃ member ∈ members, part ∈ member.2.parts := by
    induction members with
    | nil => simp [memberParts]
    | cons member members ih =>
        obtain ⟨key, value⟩ := member
        simp [memberParts, ih]
  rw [parts, List.mem_cons, inside]

theorem itemsDepth_le : itemsDepth items ≤ most ↔ ∀ item ∈ items, item.depth ≤ most := by
  induction items with
  | nil => simp [itemsDepth]
  | cons item items ih => simp only [itemsDepth, Nat.max_le, ih, List.forall_mem_cons]

theorem membersDepth_le : membersDepth members ≤ most ↔ ∀ member ∈ members, member.2.depth ≤ most := by
  induction members with
  | nil => simp [membersDepth]
  | cons member members ih =>
      obtain ⟨key, value⟩ := member
      simp only [membersDepth, Nat.max_le, ih, List.forall_mem_cons]

theorem arrangedItems_eq_map (items : List Value) : arrangedItems items = items.map arranged := by
  induction items with
  | nil => rfl
  | cons item items ih => rw [arrangedItems, ih, List.map_cons]

theorem arrangedMembers_eq_map (members : List (String × Value)) :
    arrangedMembers members = members.map fun member => (member.1, member.2.arranged) := by
  induction members with
  | nil => rfl
  | cons member members ih => rw [arrangedMembers, ih, List.map_cons]

theorem keys_arrangedMembers (members : List (String × Value)) :
    (arrangedMembers members).map (·.1) = members.map (·.1) := by
  simp [arrangedMembers_eq_map]

theorem HasDistinctKeys.item (distinct : (array items).HasDistinctKeys) :
    ∀ item ∈ items, item.HasDistinctKeys := fun item member _ part =>
  distinct _ (mem_parts_array.mpr (.inr ⟨item, member, part⟩))

theorem HasDistinctKeys.keys (distinct : (object members).HasDistinctKeys) :
    (members.map (·.1)).Nodup :=
  distinct members List.mem_cons_self

theorem HasDistinctKeys.member (distinct : (object members).HasDistinctKeys) :
    ∀ member ∈ members, member.2.HasDistinctKeys := fun member listed _ part =>
  distinct _ (mem_parts_object.mpr (.inr ⟨member, listed, part⟩))

theorem memberValues?_perm {trees written : List (Spelled × Tree)} (reordered : trees.Perm written)
    {values : List (String × Value)} (read : Tree.memberValues? most trees = some values) :
    ∃ others, Tree.memberValues? most written = some others ∧ values.Perm others := by
  induction reordered generalizing values with
  | nil => exact ⟨values, read, .refl _⟩
  | cons member _ ih =>
      obtain ⟨key, item⟩ := member
      simp only [Tree.memberValues?, Option.bind_eq_bind, Option.bind_eq_some_iff] at read ⊢
      obtain ⟨name, rfl, value, found, rest, read, same⟩ := read
      cases same
      obtain ⟨others, again, perm⟩ := ih read
      exact ⟨(name, value) :: others, ⟨name, rfl, value, found, others, again, rfl⟩, perm.cons _⟩
  | swap first second trees =>
      obtain ⟨key, item⟩ := first
      obtain ⟨key', item'⟩ := second
      simp only [Tree.memberValues?, Option.bind_eq_bind, Option.bind_eq_some_iff] at read ⊢
      obtain ⟨name, rfl, value, found, rest, ⟨name', rfl, value', found', rest', read, same'⟩, same⟩ := read
      cases same'
      cases same
      exact ⟨_, ⟨name', rfl, value', found', _, ⟨name, rfl, value, found, rest', read, rfl⟩, rfl⟩,
        .swap _ _ _⟩
  | trans _ _ ih ih' =>
      obtain ⟨others, read, perm⟩ := ih read
      obtain ⟨others', read, perm'⟩ := ih' read
      exact ⟨others', read, perm.trans perm'⟩

mutual

theorem HasTree.value? : {v : Value} → {t : Tree} → v.HasTree t → v.HasDistinctKeys → (most : Nat) →
    t.value? most = if v.depth ≤ most then some v.arranged else none
  | .null, _, tree, _, _ => by
      cases tree
      simp [Tree.value?, depth, arranged]
  | .bool _, _, tree, _, _ => by
      cases tree
      simp [Tree.value?, depth, arranged]
  | .number _, _, tree, _, _ => by
      obtain ⟨n, meant, rfl⟩ := tree
      simp [Tree.value?, depth, arranged, meant]
  | .string _, _, tree, _, _ => by
      cases tree
      simp [Tree.value?, depth, arranged]
  | .array items, _, tree, distinct, most => by
      obtain ⟨trees, have', rfl⟩ := tree
      cases most with
      | zero => simp [Tree.value?, depth]
      | succ most =>
          rw [Tree.value?, HaveTrees.values? have' distinct.item most]
          by_cases shallow : itemsDepth items ≤ most <;> simp [depth, arranged, shallow]
  | .object members, _, tree, distinct, most => by
      obtain ⟨trees, written, have', reordered, rfl⟩ := tree
      cases most with
      | zero => simp [Tree.value?, depth]
      | succ most =>
          have read := MembersHaveTrees.values? have' distinct.member most
          by_cases shallow : membersDepth members ≤ most
          · rw [if_pos shallow] at read
            obtain ⟨others, read', perm⟩ := memberValues?_perm reordered read
            have same := arrange_congr perm (by rw [keys_arrangedMembers]; exact distinct.keys)
            simp [Tree.value?, depth, arranged, shallow, read', same]
          · rw [if_neg shallow] at read
            have unread : Tree.memberValues? most written = none := by
              cases read' : Tree.memberValues? most written with
              | none => rfl
              | some others =>
                  obtain ⟨_, found, -⟩ := memberValues?_perm reordered.symm read'
                  rw [read] at found
                  cases found
            simp [Tree.value?, depth, shallow, unread]

theorem HaveTrees.values? : {items : List Value} → {trees : List Tree} → HaveTrees items trees →
    (∀ item ∈ items, item.HasDistinctKeys) → (most : Nat) →
    Tree.values? most trees = if itemsDepth items ≤ most then some (arrangedItems items) else none
  | [], _, trees, _, _ => by
      cases trees
      simp [Tree.values?, itemsDepth, arrangedItems]
  | item :: items, _, trees, distinct, most => by
      obtain ⟨first, others, tree, trees, rfl⟩ := trees
      obtain ⟨distinct, distinct'⟩ := List.forall_mem_cons.mp distinct
      rw [Tree.values?, HasTree.value? tree distinct most, HaveTrees.values? trees distinct' most]
      simp only [itemsDepth, Nat.max_le]
      by_cases shallow : item.depth ≤ most <;> by_cases shallow' : itemsDepth items ≤ most <;>
        simp [arrangedItems, shallow, shallow']

theorem MembersHaveTrees.values? : {members : List (String × Value)} → {trees : List (Spelled × Tree)} →
    MembersHaveTrees members trees → (∀ member ∈ members, member.2.HasDistinctKeys) → (most : Nat) →
    Tree.memberValues? most trees =
      if membersDepth members ≤ most then some (arrangedMembers members) else none
  | [], _, trees, _, _ => by
      cases trees
      simp [Tree.memberValues?, membersDepth, arrangedMembers]
  | (key, value) :: members, _, trees, distinct, most => by
      obtain ⟨first, others, tree, trees, rfl⟩ := trees
      obtain ⟨distinct, distinct'⟩ := List.forall_mem_cons.mp distinct
      rw [Tree.memberValues?, HasTree.value? tree distinct most,
        MembersHaveTrees.values? trees distinct' most]
      simp only [membersDepth, Nat.max_le]
      by_cases shallow : value.depth ≤ most <;> by_cases shallow' : membersDepth members ≤ most <;>
        simp [arrangedMembers, shallow, shallow']

end

end Value

end Curtail.Json
