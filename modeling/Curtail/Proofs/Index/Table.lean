import Curtail.Index.Table
import Mathlib.Tactic.Common

namespace Curtail.Table

section Find

variable {κ α : Type} [Ord κ] [Std.LawfulEqOrd κ]

theorem find_place_self (key : κ) (x : α) (entries : List (κ × α)) :
    find key (place key x entries) = some x := by
  induction entries with
  | nil => simp [place, find]
  | cons entry entries ih =>
      obtain ⟨k, y⟩ := entry
      unfold place
      cases order : compare key k with
      | lt => simp [find]
      | eq => simp [find]
      | gt => simp [find, order, ih]

theorem find_place_of_ne {key other : κ} (distinct : other ≠ key) (x : α) (entries : List (κ × α)) :
    find other (place key x entries) = find other entries := by
  have unlike : compare other key ≠ .eq := fun equal => distinct (Std.LawfulEqOrd.eq_of_compare equal)
  induction entries with
  | nil => simp [place, find, unlike]
  | cons entry entries ih =>
      obtain ⟨k, y⟩ := entry
      unfold place
      cases order : compare key k with
      | lt => simp [find, unlike]
      | eq =>
          obtain rfl := Std.LawfulEqOrd.eq_of_compare order
          simp [find, unlike]
      | gt => simp [find, ih]

end Find

section Sorted

variable {κ α : Type} [Ord κ] [Std.LawfulEqOrd κ]

theorem ne_of_compare_eq_lt {a b : κ} (less : compare a b = .lt) : a ≠ b := by
  rintro rfl
  rw [Std.ReflOrd.compare_self] at less
  cases less

theorem find_eq_some_iff {key : κ} {x : α} {entries : List (κ × α)}
    (sorted : entries.Pairwise fun a b => compare a.1 b.1 = .lt) :
    find key entries = some x ↔ (key, x) ∈ entries := by
  induction entries with
  | nil => simp [find]
  | cons entry entries ih =>
      obtain ⟨k, y⟩ := entry
      obtain ⟨before, tail⟩ := List.pairwise_cons.mp sorted
      rw [find, List.mem_cons]
      by_cases here : key = k
      · obtain rfl := here
        -- Later entries have greater keys.
        have absent : (key, x) ∉ entries := fun member => ne_of_compare_eq_lt (before _ member) rfl
        simp [absent, eq_comm]
      · have unlike : compare key k ≠ .eq := fun equal => here (Std.LawfulEqOrd.eq_of_compare equal)
        simp [here, unlike, ih tail]

theorem get?_eq_some_iff {t : Table κ α} {key : κ} {x : α} :
    t.get? key = some x ↔ (key, x) ∈ t.entries :=
  find_eq_some_iff t.sorted

theorem flatMap_entries {β : Type} (t : Table κ α) (key : κ) {f : κ × α → List β}
    (elsewhere : ∀ entry ∈ t.entries, entry.1 ≠ key → f entry = []) :
    t.entries.flatMap f = (t.get? key).elim [] fun x => f (key, x) := by
  cases found : t.get? key with
  | none =>
      rw [Option.elim_none, List.flatMap_eq_nil_iff]
      intro entry member
      apply elsewhere entry member
      rintro rfl
      rw [get?_eq_some_iff.mpr member] at found
      cases found
  | some x =>
      obtain ⟨before, after, split⟩ := List.append_of_mem (get?_eq_some_iff.mp found)
      have sorted := t.sorted
      rw [split, List.pairwise_append, List.pairwise_cons] at sorted
      have others : ∀ entry ∈ before ++ after, f entry = [] := by
        intro entry member
        rcases List.mem_append.mp member with early | late
        · exact elsewhere entry (by simp [split, early])
            (ne_of_compare_eq_lt (sorted.2.2 entry early _ List.mem_cons_self))
        · exact elsewhere entry (by simp [split, late])
            (ne_of_compare_eq_lt (sorted.2.1.1 entry late)).symm
      rw [← List.flatMap_eq_nil_iff, List.flatMap_append, List.append_eq_nil_iff] at others
      rw [split, List.flatMap_append, List.flatMap_cons, others.1, others.2]
      simp

theorem flatMap_values {β : Type} (t : Table κ α) {own : α → κ}
    (keyed : ∀ key x, t.get? key = some x → own x = key) (key : κ) {f : α → List β}
    (elsewhere : ∀ x, own x ≠ key → f x = []) : t.values.flatMap f = (t.get? key).elim [] f := by
  rw [values, List.flatMap_map]
  refine t.flatMap_entries key fun entry member distinct => elsewhere entry.2 ?_
  rwa [keyed entry.1 entry.2 (get?_eq_some_iff.mpr member)]

theorem ext_get? [Std.TransOrd κ] {t other : Table κ α} (same : ∀ key, t.get? key = other.get? key) : t = other := by
  have distinct : ∀ table : Table κ α, table.entries.Nodup := fun table =>
    table.sorted.imp fun less equal => ne_of_compare_eq_lt less (congrArg Prod.fst equal)
  have entries : t.entries = other.entries := by
    apply List.Perm.eq_of_pairwise _ t.sorted other.sorted
    · rw [List.perm_ext_iff_of_nodup (distinct t) (distinct other)]
      rintro ⟨key, x⟩
      rw [← get?_eq_some_iff, ← get?_eq_some_iff, same]
    · intro a b _ _ less greater
      exact (ne_of_compare_eq_lt (Std.TransCmp.lt_trans less greater) rfl).elim
  cases t
  cases other
  cases entries
  rfl

end Sorted

variable {κ α : Type} [Ord κ]

theorem get?_of_not_contains {t : Table κ α} {key : κ} (absent : t.contains key = false) :
    t.get? key = none := by
  simpa [contains] using absent

theorem get?_map_cases {t later : Table κ α} {f : κ → α → α}
    (maps : ∀ key, later.get? key = (t.get? key).map (f key)) {key : κ} {y : α}
    (found : later.get? key = some y) : ∃ x, t.get? key = some x ∧ y = f key x := by
  obtain ⟨x, old, rfl⟩ := Option.map_eq_some_iff.mp ((maps key).symm.trans found)
  exact ⟨x, old, rfl⟩

theorem contains_map {t later : Table κ α} {f : κ → α → α}
    (maps : ∀ key, later.get? key = (t.get? key).map (f key)) (key : κ) :
    later.contains key = t.contains key := by
  rw [contains, contains, maps, Option.isSome_map]

def All (t : Table κ α) (good : α → Prop) : Prop := ∀ key x, t.get? key = some x → good x

theorem All.empty (good : α → Prop) : (empty : Table κ α).All good := by
  intro key x found
  cases found

def Grows (becomes : α → α → Prop) (t later : Table κ α) : Prop :=
  ∀ key x, t.get? key = some x → ∃ y, later.get? key = some y ∧ becomes x y

theorem Grows.refl {becomes : α → α → Prop} (same : ∀ x, becomes x x) (t : Table κ α) :
    t.Grows becomes t :=
  fun _ x found => ⟨x, found, same x⟩

theorem Grows.trans {becomes : α → α → Prop} {t later last : Table κ α}
    (chained : ∀ {x y z}, becomes x y → becomes y z → becomes x z) (first : t.Grows becomes later)
    (second : later.Grows becomes last) : t.Grows becomes last := by
  intro key x found
  obtain ⟨y, between, became⟩ := first key x found
  obtain ⟨z, present, further⟩ := second key y between
  exact ⟨z, present, chained became further⟩

theorem Grows.absent {becomes : α → α → Prop} {t later : Table κ α} (grows : t.Grows becomes later)
    {key : κ} (missing : later.get? key = none) : t.get? key = none := by
  cases found : t.get? key with
  | none => rfl
  | some x =>
      obtain ⟨y, present, -⟩ := grows key x found
      cases missing.symm.trans present

variable [Std.TransOrd κ] [Std.LawfulEqOrd κ] [DecidableEq κ]

theorem get?_insert (t : Table κ α) (key other : κ) (x : α) :
    (t.insert key x).get? other = if other = key then some x else t.get? other := by
  by_cases same : other = key
  · rw [if_pos same, same]
    exact find_place_self key x t.entries
  · rw [if_neg same]
    exact find_place_of_ne same x t.entries

theorem get?_modify (t : Table κ α) (key other : κ) (f : α → α) :
    (t.modify key f).get? other = if other = key then (t.get? key).map f else t.get? other := by
  unfold modify
  cases found : t.get? key with
  | none =>
      by_cases same : other = key
      · rw [if_pos same, same, found]
        rfl
      · rw [if_neg same]
  | some x => rw [get?_insert, Option.map_some]

theorem get?_insert_cases {t : Table κ α} {key other : κ} {x y : α}
    (found : (t.insert key x).get? other = some y) :
    other = key ∧ y = x ∨ other ≠ key ∧ t.get? other = some y := by
  rw [get?_insert] at found
  by_cases same : other = key
  · rw [if_pos same] at found
    exact .inl ⟨same, (Option.some.inj found).symm⟩
  · rw [if_neg same] at found
    exact .inr ⟨same, found⟩

theorem get?_modify_cases {t : Table κ α} {key other : κ} {f : α → α} {y : α}
    (found : (t.modify key f).get? other = some y) :
    (other = key ∧ ∃ x, t.get? key = some x ∧ y = f x) ∨ other ≠ key ∧ t.get? other = some y := by
  rw [get?_modify] at found
  by_cases same : other = key
  · rw [if_pos same] at found
    obtain ⟨x, old, rfl⟩ := Option.map_eq_some_iff.mp found
    exact .inl ⟨same, x, old, rfl⟩
  · rw [if_neg same] at found
    exact .inr ⟨same, found⟩

theorem get?_modify_eq_none_iff {t : Table κ α} {key other : κ} {f : α → α} :
    (t.modify key f).get? other = none ↔ t.get? other = none := by
  rw [get?_modify]
  by_cases same : other = key
  · rw [if_pos same, same, Option.map_eq_none_iff]
  · rw [if_neg same]

theorem map_get?_modify {β : Type} (t : Table κ α) (key other : κ) {f : α → α} {view : α → β}
    (kept : ∀ x, view (f x) = view x) :
    ((t.modify key f).get? other).map view = (t.get? other).map view := by
  rw [get?_modify]
  by_cases same : other = key
  · rw [if_pos same, same, Option.map_map]
    congr 1
    funext x
    exact kept x
  · rw [if_neg same]

theorem get?_modify_eq_map (t : Table κ α) {key : κ} {f : α → α} {g : κ → α → α} (here : g key = f)
    (elsewhere : ∀ other, other ≠ key → g other = id) (other : κ) :
    (t.modify key f).get? other = (t.get? other).map (g other) := by
  rw [get?_modify]
  by_cases same : other = key
  · rw [if_pos same, same, here]
  · rw [if_neg same, elsewhere other same, Option.map_id_fun, id]

theorem All.insert {t : Table κ α} {good : α → Prop} (all : t.All good) (key : κ) {x : α}
    (new : good x) : (t.insert key x).All good := by
  intro other y found
  rcases get?_insert_cases found with ⟨-, rfl⟩ | ⟨-, old⟩
  · exact new
  · exact all other y old

theorem All.modify {t : Table κ α} {good : α → Prop} (all : t.All good) (key : κ) {f : α → α}
    (kept : ∀ x, good x → good (f x)) : (t.modify key f).All good := by
  intro other y found
  rcases get?_modify_cases found with ⟨-, x, old, rfl⟩ | ⟨-, old⟩
  · exact kept x (all key x old)
  · exact all other y old

theorem Grows.insert {t : Table κ α} {becomes : α → α → Prop} (same : ∀ x, becomes x x) {key : κ}
    {x : α} (allowed : ∀ old, t.get? key = some old → becomes old x) :
    t.Grows becomes (t.insert key x) := by
  intro other y found
  rw [get?_insert]
  by_cases place : other = key
  · rw [if_pos place]
    exact ⟨x, rfl, allowed y (place ▸ found)⟩
  · rw [if_neg place]
    exact ⟨y, found, same y⟩

theorem Grows.modify {t : Table κ α} {becomes : α → α → Prop} (same : ∀ x, becomes x x) {key : κ}
    {f : α → α} (allowed : ∀ x, t.get? key = some x → becomes x (f x)) :
    t.Grows becomes (t.modify key f) := by
  intro other y found
  rw [get?_modify]
  by_cases place : other = key
  · have here : t.get? key = some y := place ▸ found
    rw [if_pos place, here]
    exact ⟨f y, rfl, allowed y here⟩
  · rw [if_neg place]
    exact ⟨y, found, same y⟩

section Map

variable {t later : Table κ α} {f : κ → α → α}
  (maps : ∀ key, later.get? key = (t.get? key).map (f key))

include maps

theorem get?_insert_map {key : κ} {x : α} (kept : f key x = x) (other : κ) :
    (later.insert key x).get? other = ((t.insert key x).get? other).map (f other) := by
  rw [get?_insert, get?_insert]
  by_cases same : other = key
  · rw [if_pos same, if_pos same, same, Option.map_some, kept]
  · rw [if_neg same, if_neg same, maps]

theorem get?_modify_map {key : κ} {g : α → α} (comm : ∀ x, g (f key x) = f key (g x)) (other : κ) :
    (later.modify key g).get? other = ((t.modify key g).get? other).map (f other) := by
  rw [get?_modify, get?_modify]
  by_cases same : other = key
  · rw [if_pos same, if_pos same, same, maps, Option.map_map, Option.map_map]
    congr 1
    funext x
    exact comm x
  · rw [if_neg same, if_neg same, maps]

end Map

end Curtail.Table
